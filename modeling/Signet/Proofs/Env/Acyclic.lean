import Signet.Proofs.Env.Loops

/-! # Bindings without cycles

A variable refers to those that occur in the term it is bound to. The rank that falls along
every reference is the weight of a variable, so no chain of references closes. Nothing is
taken on trust from the type of environments: bindings are built by the loop that puts a
binding in front without a proof, and what it builds are the bindings of an environment. -/
namespace Signet

/-- The environments that further runs of `unify` make of `E`. -/
inductive Env.Later (E : Env) : Env → Prop
  | refl : E.Later E
  | unify {F G : Env} {a b : Term} : E.Later F → F.unify a b = some G → E.Later G

namespace Bindings

/-- The bindings that the bare loop builds, each run from any that were built before. -/
inductive Built : Bindings → Prop
  | empty : Built []
  | unify {l l' : Bindings} {a b : Term} : Built l → l.unify? a b = some (some l') → Built l'

/-- `v` is bound to a term in which `w` occurs. -/
def Refers (l : Bindings) (v w : Nat) : Prop := ∃ s, l.lookup v = some s ∧ w ∈ s.vars

/-- No variable comes back to itself in one or more steps. -/
def Acyclic (l : Bindings) : Prop := ∀ v, ¬ Relation.TransGen l.Refers v v

theorem weight_var_le (l : Bindings) {w : Nat} {t : Term} (h : w ∈ t.vars) :
    l.weight (.var w) ≤ l.weight t := by
  induction t using Term.induct with
  | var v =>
    obtain rfl : w = v := by simpa [Term.vars] using h
    exact Nat.le_refl _
  | atom a => simp [Term.vars] at h
  | int i => simp [Term.vars] at h
  | compound f args ih =>
    rw [Term.vars_compound] at h
    obtain ⟨a, ha, hw⟩ := List.mem_flatMap.mp h
    have hle := ih a ha hw
    have htotal := le_total (f := l.weight) ha
    rw [weight_compound]
    omega

theorem Refers.weight_lt {l : Bindings} (hl : l.Triangular) {v w : Nat} (h : l.Refers v w) :
    l.weight (.var w) < l.weight (.var v) := by
  obtain ⟨s, hs, hw⟩ := h
  have hle := weight_var_le l hw
  rw [weight_of_lookup hl hs]
  omega

theorem Triangular.weight_lt_of_transGen {l : Bindings} (hl : l.Triangular) {v w : Nat}
    (h : Relation.TransGen l.Refers v w) : l.weight (.var w) < l.weight (.var v) := by
  induction h with
  | single h => exact h.weight_lt hl
  | tail _ h ih => exact Nat.lt_trans (h.weight_lt hl) ih

theorem Triangular.acyclic {l : Bindings} (hl : l.Triangular) : l.Acyclic := by
  intro v h
  exact Nat.lt_irrefl _ (hl.weight_lt_of_transGen h)

/-- The bare loop builds exactly the bindings of the environments that `unify` builds. -/
theorem built_iff {l : Bindings} : l.Built ↔ ∃ E : Env, Env.empty.Later E ∧ E.bindings = l := by
  constructor
  · intro h
    induction h with
    | empty => exact ⟨.empty, .refl, rfl⟩
    | @unify l l' a b _ hu ih =>
      obtain ⟨E, hE, rfl⟩ := ih
      rw [unify?_eq] at hu
      obtain ⟨F, hF, rfl⟩ := Option.map_eq_some_iff.mp (Option.some.inj hu)
      exact ⟨F, hE.unify hF, rfl⟩
  · rintro ⟨E, hE, rfl⟩
    induction hE with
    | refl => exact .empty
    | unify _ hu ih => exact ih.unify (by rw [unify?_eq, hu]; rfl)

/-- Whatever the bare loop builds has no cycle, and on it every loop ends: the operations of the
environment with these bindings give the values. -/
theorem acyclic_of_built {l : Bindings} (h : Built l) :
    l.Acyclic ∧ ∃ E : Env, Env.empty.Later E ∧ E.bindings = l ∧
      (∀ t, l.resolve? t = some (E.resolve t) ∧ ∀ v, E.resolve t = .var v → l.lookup v = none) ∧
      (∀ t, l.simplify? t = some (E.simplify t)) ∧
      (∀ v t, l.occurs? v t = some (E.occurs v t)) ∧
      (∀ a b, l.unify? a b = some ((E.unify a b).map Env.bindings)) := by
  obtain ⟨E, hE, rfl⟩ := built_iff.mp h
  refine ⟨E.triangular.acyclic, E, hE, rfl, ?_, simplify?_eq E, occurs?_eq E, unify?_eq E⟩
  intro t
  exact ⟨resolve?_eq E t, fun v hv => Env.lookup_of_resolve hv⟩

theorem chain_acyclic :
    Built [(1, .compound "f" [.var 2]), (0, .var 1)] ∧
      Acyclic [(1, .compound "f" [.var 2]), (0, .var 1)] := by
  have first : unify? [] (.var 0) (.var 1) = some (some [(0, .var 1)]) := by cbv
  have second : unify? [(0, .var 1)] (.var 0) (.compound "f" [.var 2]) =
      some (some [(1, .compound "f" [.var 2]), (0, .var 1)]) := by cbv
  have built := (Built.empty.unify first).unify second
  exact ⟨built, (acyclic_of_built built).1⟩

end Bindings

end Signet
