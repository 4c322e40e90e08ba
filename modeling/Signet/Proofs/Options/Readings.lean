import Signet.Proofs.Codec.Readings
import Signet.Proofs.Options.Names
import Signet.Proofs.Options.Scan

/-! # Options under two readings

The entry that decides in one environment decides in the other, for the entries before it are
compounds with other functors in both. A list that no entry decides ends alike. -/
namespace Signet

variable {E F : Env} {σ : Nat → Term} {kept : Nat → Prop}

namespace Options

theorem carries_scan {w w' : List Term × Option TermError} (h : Env.Follows E σ kept w w')
    (key : String) (default : Term) :
    Carries E σ kept (Term.bind σ) (scan key default w) (scan key (default.bind σ) w') := by
  induction h with
  | done =>
    rw [scan_nil, scan_nil]
    exact .ok default
  | stop e =>
    rw [scan_stop, scan_stop, TermError.kind_mapCulprit]
    exact .error e.kind
  | @item t w w' ht _ ih =>
    cases t with
    | var v =>
      obtain ⟨u, hu⟩ := ht v rfl
      rw [Term.bind, hu, scan_var, scan_var]
      exact .error_of_eq (by rw [ErrorKind.mapCulprit, Term.bind, hu])
    | atom a =>
      rw [scan_atom]
      exact .error (.type .compound (.atom a))
    | int i =>
      rw [scan_int]
      exact .error (.type .compound (.int i))
    | compound f args =>
      rw [Term.bind_compound]
      by_cases hf : f = key
      · subst hf
        by_cases hlen : args.length = 1
        · obtain ⟨value, rfl⟩ := List.length_eq_one_iff.mp hlen
          rw [scan_value, List.map_singleton, scan_value]
          exact .ok value
        · rw [scan_arity hlen, scan_arity (by simpa using hlen)]
          exact .error_of_eq (by rw [ErrorKind.mapCulprit, Term.bind_compound])
      · rw [scan_skip _ hf, scan_skip _ hf]
        exact ih
  | openTail hv hk => exact .blame rfl hv hk
  | openItem hv hk => exact .blame rfl hv hk

theorem carries_get (h : Env.Reads E F σ kept) (key : String) (options default : Term) :
    Carries E σ kept (Term.bind σ) (get key options default E).result
      (get key (options.bind σ) (default.bind σ) F).result := by
  rw [result_get, result_get]
  exact carries_scan (h.walk defaultListLimit defaultListLimit options) key default

theorem carries_named {α : Type} {member : String → Except ErrorKind α}
    (h : Env.Reads E F σ kept)
    (hm : ∀ name, Carries E σ kept id (member name) (member name))
    (key : String) (options default : Term) :
    Carries E σ kept id (named key options default E member).result
      (named key (options.bind σ) (default.bind σ) F member).result := by
  unfold named
  simp only [Traced.result_bind, Traced.result_lift]
  exact (carries_get h key options default).bind fun value =>
    (Env.carries_atomName h value).bind fun name => hm name

end Options

theorem Encoding.carries_ofName (name : String) :
    Carries E σ kept id (Encoding.ofName name) (Encoding.ofName name) := by
  refine .same fun kind hkind => ?_
  unfold ofName at hkind
  split at hkind <;> cases hkind
  rfl

theorem Encoding.carries_ofOptions (h : Env.Reads E F σ kept) (options : Term) :
    Carries E σ kept id (Encoding.ofOptions options E).result
      (Encoding.ofOptions (options.bind σ) F).result :=
  Options.carries_named h Encoding.carries_ofName "encoding" options (.atom hex.name)

theorem Codec.carries_decodeBy (h : Env.Reads E F σ kept) (codec : Codec) (t options : Term) :
    Carries E σ kept id (codec.decodeBy t options E).result
      (codec.decodeBy (t.bind σ) (options.bind σ) F).result := by
  unfold decodeBy
  simp only [Traced.result_bind, Traced.result_lift]
  exact (Encoding.carries_ofOptions h options).bind fun encoding => carries_decode h codec t encoding

end Signet
