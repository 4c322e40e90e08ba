import Signet.Proofs.Codec.Octets
import Signet.Proofs.Env.Readings

/-! # Decoding under two readings

What a term decodes to carries over to any environment that reads it alike. The relation passes
through `>>=`, so each decoder is taken apart where its definition is, and the order of its checks
shows in the order of the steps. -/
namespace Signet

variable {E F : Env} {σ : Nat → Term} {kept : Nat → Prop}

theorem Term.carries_byte {t : Term} (h : t.StaysVar σ) :
    Carries E σ kept id t.byte (t.bind σ).byte := by
  cases t with
  | var v =>
    obtain ⟨w, hw⟩ := h v rfl
    rw [Term.bind, hw]
    exact .error_of_eq (by rw [ErrorKind.mapCulprit, Term.bind, hw])
  | atom a => exact .error (.type .byte (.atom a))
  | int i =>
    refine .same fun kind hkind => ?_
    unfold byte at hkind
    dsimp only at hkind
    split at hkind <;> cases hkind
    rfl
  | compound f args => exact .error (.type .byte (.compound f args))

theorem Env.carries_atomName (h : Env.Reads E F σ kept) (t : Term) :
    Carries E σ kept id (E.atomName t) (F.atomName (t.bind σ)) := by
  unfold Env.atomName
  rcases h.cases t with ⟨v, hv, hu, hk⟩ | ⟨hres, hvar⟩
  · rw [hv]
    exact .blame rfl hu hk
  · rw [hres]
    cases hr : E.resolve t with
    | var v =>
      obtain ⟨w, hw⟩ := hvar v hr
      rw [Term.bind, hw]
      exact .error_of_eq (by rw [ErrorKind.mapCulprit, Term.bind, hw])
    | atom a => exact .ok a
    | int i => exact .error (.type .atom (.int i))
    | compound f args => exact .error (.type .atom (.compound f args))

namespace Codec

theorem carries_gather {w w' : List Term × Option TermError} (h : Env.Follows E σ kept w w') :
    Carries E σ kept id (gather w) (gather w') := by
  induction h with
  | done => exact .ok []
  | stop e =>
    rw [gather_stop, gather_stop, TermError.kind_mapCulprit]
    exact .error e.kind
  | item ht _ ih =>
    rw [gather_cons, gather_cons]
    exact (Term.carries_byte ht).bind fun b => ih.bind fun bytes => .ok (b :: bytes)
  | openTail hv hk => exact .blame rfl hv hk
  | openItem hv hk =>
    rw [gather_cons]
    exact .blame rfl hv hk

theorem carries_octets (h : Env.Reads E F σ kept) (codec : Codec) (t : Term) :
    Carries E σ kept id (codec.octets t E) (codec.octets (t.bind σ) F) :=
  carries_gather (h.walk codec.maxBytes codec.maxBytes t)

theorem carries_hexDigits (codec : Codec) (text : String) :
    Carries E σ kept id (codec.hexDigits text) (codec.hexDigits text) := by
  refine .same fun kind hkind => ?_
  unfold hexDigits at hkind
  split at hkind
  · cases hkind
    rfl
  · split at hkind
    · cases hkind
    · cases hkind
      rfl

theorem decode_hex (codec : Codec) (t : Term) (E : Env) :
    codec.decode t .hex E = E.atomName t >>= codec.hexDigits := by
  unfold decode Env.atomName
  cases E.resolve t <;> rfl

theorem carries_decode (h : Env.Reads E F σ kept) (codec : Codec) (t : Term) (encoding : Encoding) :
    Carries E σ kept id (codec.decode t encoding E) (codec.decode (t.bind σ) encoding F) := by
  cases encoding with
  | hex =>
    rw [decode_hex, decode_hex]
    exact (Env.carries_atomName h t).bind fun text => carries_hexDigits codec text
  | octet =>
    unfold decode
    dsimp only
    rcases h.cases t with ⟨v, hv, hu, hk⟩ | ⟨hres, hvar⟩
    · rw [hv]
      exact .blame rfl hu hk
    · rw [hres, hvar.isListLike]
      split
      · exact carries_octets h codec (E.resolve t)
      · exact .error (.type .list (E.resolve t))

end Codec

end Signet
