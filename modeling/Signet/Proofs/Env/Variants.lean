import Signet.Proofs.Env.Extension

/-! # Environments that differ in names only

Environments are equivalent when the same assignments respect their bindings. Each may bind
variables that the other leaves open, but a variable that is open in one stands, in the other, for
a variable that is open there, and this leads back. Exchanging the two makes a permutation of all
variables: it carries the readings of one environment over to the other, and the variables bound
in one to those bound in the other, so there are as many of them. -/
namespace Signet

namespace Term

def rename (ρ : Nat → Nat) (t : Term) : Term := t.bind fun v => .var (ρ v)

theorem rename_eq_bind {ρ : Nat → Nat} {σ : Nat → Term} {t : Term}
    (h : ∀ v ∈ t.vars, σ v = .var (ρ v)) : t.rename ρ = t.bind σ :=
  bind_congr fun v hv => (h v hv).symm

end Term

namespace Bindings

/-- The bound variables, the latest first. -/
def keys (l : Bindings) : List Nat := l.map Prod.fst

theorem mem_keys_iff {l : Bindings} {v : Nat} : v ∈ keys l ↔ l.lookup v ≠ none := by
  induction l with
  | nil => simp [keys, lookup]
  | cons b l ih =>
    obtain ⟨w, s⟩ := b
    by_cases hw : w = v
    · simp [keys, lookup, hw]
    · simpa [keys, lookup, hw, Ne.symm hw] using ih

theorem Triangular.nodup_keys {l : Bindings} (hl : l.Triangular) : (keys l).Nodup := by
  induction l with
  | nil => exact List.nodup_nil
  | cons b l ih =>
    obtain ⟨v, s⟩ := b
    obtain ⟨htl, hv, -⟩ := hl
    have hnot : v ∉ keys l := fun hmem => mem_keys_iff.mp hmem hv
    exact List.nodup_cons.mpr ⟨hnot, ih htl⟩

end Bindings

namespace Env

def Equivalent (E F : Env) : Prop := ∀ σ, E.Compatible σ ↔ F.Compatible σ

/-- Exchanges a variable that is open in one environment with the one it stands for in the other. -/
def exchange (E F : Env) (v : Nat) : Nat :=
  match E.lookup v, F.lookup v, E.apply (.var v), F.apply (.var v) with
  | none, _, _, .var w => w
  | some _, none, .var w, _ => w
  | _, _, _, _ => v

variable {E F : Env} {v w : Nat}

theorem exchange_of_open (hv : E.lookup v = none) (hw : F.apply (.var v) = .var w) :
    E.exchange F v = w := by
  simp [exchange, hv, hw]

theorem exchange_of_bound (hv : E.lookup v ≠ none) (hv' : F.lookup v = none)
    (hw : E.apply (.var v) = .var w) : E.exchange F v = w := by
  obtain ⟨s, hs⟩ := Option.ne_none_iff_exists'.mp hv
  simp [exchange, hs, hv', hw]

theorem exchange_of_bound_both (hv : E.lookup v ≠ none) (hv' : F.lookup v ≠ none) :
    E.exchange F v = v := by
  obtain ⟨s, hs⟩ := Option.ne_none_iff_exists'.mp hv
  obtain ⟨s', hs'⟩ := Option.ne_none_iff_exists'.mp hv'
  simp [exchange, hs, hs']

theorem exchange_of_open_both (hv : E.lookup v = none) (hv' : F.lookup v = none) :
    E.exchange F v = v :=
  exchange_of_open hv (apply_of_unbound hv')

namespace Equivalent

theorem symm (h : E.Equivalent F) : F.Equivalent E := fun σ => (h σ).symm

/-- What a term stands for in one environment stands for the same in the other as the term. -/
theorem apply_apply (h : E.Equivalent F) (t : Term) : F.apply (E.apply t) = F.apply t := by
  have hF : E.Compatible fun v => F.apply (.var v) := (h _).mpr F.compatible_apply
  rw [apply_eq_bind F, hF.bind_apply, ← apply_eq_bind]

/-- A variable that is open in `E` stands in `F` for one that is open there, and that one stands
in `E` for the first. -/
theorem exists_partner (h : E.Equivalent F) (hv : E.lookup v = none) :
    ∃ w, F.apply (.var v) = .var w ∧ F.lookup w = none ∧ E.apply (.var w) = .var v := by
  have hback : E.apply (F.apply (.var v)) = .var v := by
    rw [h.symm.apply_apply, apply_of_unbound hv]
  cases hw : F.apply (.var v) with
  | var w =>
    rw [hw] at hback
    exact ⟨w, rfl, lookup_of_resolve (resolve_eq_var_iff.mpr hw), hback⟩
  | _ => simp [hw] at hback

theorem exchange_involutive (h : E.Equivalent F) : Function.Involutive (E.exchange F) := by
  intro v
  by_cases hv : E.lookup v = none
  · obtain ⟨w, hw, hwF, hback⟩ := h.exists_partner hv
    rw [exchange_of_open hv hw]
    by_cases hwE : E.lookup w = none
    · rw [apply_of_unbound hwE, Term.var.injEq] at hback
      rw [exchange_of_open_both hwE hwF, hback]
    · exact exchange_of_bound hwE hwF hback
  · by_cases hv' : F.lookup v = none
    · obtain ⟨w, hw, hwE, hback⟩ := h.symm.exists_partner hv'
      rw [exchange_of_bound hv hv' hw, exchange_of_open hwE hback]
    · rw [exchange_of_bound_both hv hv', exchange_of_bound_both hv hv']

theorem rename_apply (h : E.Equivalent F) (t : Term) :
    (E.apply t).rename (E.exchange F) = F.apply t := by
  have hopen : ∀ v ∈ (E.apply t).vars, F.apply (.var v) = .var (E.exchange F v) := by
    intro v hv
    have hunbound := lookup_of_mem_vars_apply hv
    obtain ⟨w, hw, -⟩ := h.exists_partner hunbound
    rw [exchange_of_open hunbound hw, hw]
  rw [Term.rename_eq_bind hopen, ← apply_eq_bind, h.apply_apply]

theorem exchange_bound (h : E.Equivalent F) (hv : E.lookup v ≠ none) :
    F.lookup (E.exchange F v) ≠ none := by
  by_cases hv' : F.lookup v = none
  · obtain ⟨w, hw, hwE, hback⟩ := h.symm.exists_partner hv'
    rw [exchange_of_bound hv hv' hw]
    intro hwF
    rw [apply_of_unbound hwF, Term.var.injEq] at hback
    exact hv (hback ▸ hwE)
  · rwa [exchange_of_bound_both hv hv']

theorem size_le (h : E.Equivalent F) : E.size ≤ F.size := by
  have hnodup : (E.bindings.keys.map (E.exchange F)).Nodup :=
    E.triangular.nodup_keys.map h.exchange_involutive.injective
  have hsub : E.bindings.keys.map (E.exchange F) ⊆ F.bindings.keys := by
    intro w hw
    obtain ⟨v, hv, rfl⟩ := List.mem_map.mp hw
    exact Bindings.mem_keys_iff.mpr (h.exchange_bound (Bindings.mem_keys_iff.mp hv))
  have hlen := (hnodup.subperm hsub).length_le
  simpa [Bindings.keys, size] using hlen

theorem size_eq (h : E.Equivalent F) : E.size = F.size := Nat.le_antisymm h.size_le h.symm.size_le

/-- One permutation of the variables turns every reading in `E` into that in `F`; it moves only
variables that one of them binds. -/
theorem exists_renaming (h : E.Equivalent F) :
    ∃ ρ : Equiv.Perm Nat, (∀ t, (E.simplify t).rename ρ = F.simplify t) ∧
      ∀ v, E.lookup v = none → F.lookup v = none → ρ v = v := by
  refine ⟨h.exchange_involutive.toPerm, ?_, ?_⟩
  · intro t
    rw [simplify_eq, simplify_eq]
    exact h.rename_apply t
  · intro v hv hv'
    exact exchange_of_open_both hv hv'

end Equivalent

end Env

end Signet
