import Signet.Env.Simplify
import Signet.Proofs.Env.Readings
import Signet.Proofs.Env.Variants

/-! # Other names for the variables

An injective renaming may be carried out before or after an operation. Where a variable is put in
place of another, or compared with it, renamed variables take the place of renamed ones and differ
where the first ones do. So each step of unification takes renamed equations to what it makes of the
first ones, renamed, and the names do not decide which way a variable is bound. -/
namespace Signet

variable {ρ : Nat → Nat}

namespace Term

@[simp] theorem rename_var (ρ : Nat → Nat) (v : Nat) : (var v).rename ρ = var (ρ v) := rfl

@[simp] theorem rename_atom (ρ : Nat → Nat) (a : String) : (atom a).rename ρ = atom a := rfl

@[simp] theorem rename_int (ρ : Nat → Nat) (i : Int64) : (int i).rename ρ = int i := rfl

@[simp] theorem rename_compound (ρ : Nat → Nat) (f : String) (args : List Term) :
    (compound f args).rename ρ = compound f (args.map (rename ρ)) :=
  bind_compound _ f args

theorem mem_vars_rename {t : Term} {w : Nat} : w ∈ (t.rename ρ).vars ↔ ∃ v ∈ t.vars, w = ρ v := by
  simp [rename, mem_vars_bind, vars]

variable (hρ : Function.Injective ρ)
include hρ

theorem mem_vars_rename_iff {t : Term} {v : Nat} : ρ v ∈ (t.rename ρ).vars ↔ v ∈ t.vars := by
  rw [mem_vars_rename]
  constructor
  · intro h
    obtain ⟨w, hw, he⟩ := h
    rwa [hρ he]
  · intro h
    exact ⟨v, h, rfl⟩

theorem rename_single (v : Nat) (s : Term) (w : Nat) :
    (single v s w).rename ρ = single (ρ v) (s.rename ρ) (ρ w) := by
  by_cases h : w = v
  · rw [h, single_self, single_self]
  · rw [single_of_ne s h, single_of_ne _ (hρ.ne h), rename_var]

theorem rename_bind_single (v : Nat) (s t : Term) :
    (t.bind (single v s)).rename ρ = (t.rename ρ).bind (single (ρ v) (s.rename ρ)) := by
  have hvars : t.rename ρ = t.bind fun w => .var (ρ w) := rfl
  rw [hvars, bind_bind, rename, bind_bind]
  exact bind_congr fun w _ => rename_single hρ v s w

end Term

namespace Bindings

def rename (ρ : Nat → Nat) (l : Bindings) : Bindings := l.map fun b => (ρ b.1, b.2.rename ρ)

theorem rename_cons (v : Nat) (s : Term) (l : Bindings) :
    rename ρ ((v, s) :: l) = (ρ v, s.rename ρ) :: rename ρ l :=
  rfl

theorem mem_keys_rename {l : Bindings} {w : Nat} :
    w ∈ keys (rename ρ l) ↔ ∃ v ∈ keys l, w = ρ v := by
  simp [keys, rename, eq_comm]

variable (hρ : Function.Injective ρ)
include hρ

theorem lookup_rename (l : Bindings) (v : Nat) :
    (rename ρ l).lookup (ρ v) = (l.lookup v).map (Term.rename ρ) := by
  induction l with
  | nil => rfl
  | cons b l ih =>
    obtain ⟨w, s⟩ := b
    by_cases h : w = v
    · simp [rename_cons, lookup, h]
    · simpa [rename_cons, lookup, h, hρ.ne h] using ih

theorem apply_rename (l : Bindings) (t : Term) :
    (rename ρ l).apply (t.rename ρ) = (l.apply t).rename ρ := by
  induction l generalizing t with
  | nil => rfl
  | cons b l ih =>
    obtain ⟨v, s⟩ := b
    rw [rename_cons, apply, apply, ih, ih, Term.rename_bind_single hρ]

theorem Triangular.rename {l : Bindings} (hl : l.Triangular) : (rename ρ l).Triangular := by
  induction l with
  | nil => trivial
  | cons b l ih =>
    obtain ⟨v, s⟩ := b
    obtain ⟨htl, hv, hs⟩ := hl
    have hv' : (Bindings.rename ρ l).lookup (ρ v) = none := by rw [lookup_rename hρ, hv]; rfl
    have hs' : ρ v ∉ ((Bindings.rename ρ l).apply (s.rename ρ)).vars := by
      rwa [apply_rename hρ, Term.mem_vars_rename_iff hρ]
    exact ⟨ih htl, hv', hs'⟩

end Bindings

namespace Env

/-- The environment with other names for its variables. -/
def rename (E : Env) (hρ : Function.Injective ρ) : Env :=
  ⟨E.bindings.rename ρ, E.triangular.rename hρ⟩

variable (hρ : Function.Injective ρ) (E : Env)

theorem empty_rename : empty.rename hρ = empty := rfl

theorem lookup_rename (v : Nat) :
    (E.rename hρ).lookup (ρ v) = (E.lookup v).map (Term.rename ρ) :=
  Bindings.lookup_rename hρ E.bindings v

theorem lookup_rename_iff {w : Nat} {s : Term} :
    (E.rename hρ).lookup w = some s ↔ ∃ v r, E.lookup v = some r ∧ w = ρ v ∧ s = r.rename ρ := by
  constructor
  · intro h
    have hmem : w ∈ (E.bindings.rename ρ).keys := by
      rw [Bindings.mem_keys_iff]
      exact (h ▸ Option.some_ne_none s : (E.rename hρ).lookup w ≠ none)
    obtain ⟨v, -, rfl⟩ := Bindings.mem_keys_rename.mp hmem
    rw [lookup_rename] at h
    obtain ⟨r, hr, rfl⟩ := Option.map_eq_some_iff.mp h
    exact ⟨v, r, hr, rfl, rfl⟩
  · intro h
    obtain ⟨v, r, hr, rfl, rfl⟩ := h
    rw [lookup_rename, hr]
    rfl

theorem apply_rename (t : Term) : (E.rename hρ).apply (t.rename ρ) = (E.apply t).rename ρ :=
  Bindings.apply_rename hρ E.bindings t

theorem simplify_rename (t : Term) :
    (E.rename hρ).simplify (t.rename ρ) = (E.simplify t).rename ρ := by
  rw [simplify_eq, simplify_eq, apply_rename]

theorem resolve_rename (t : Term) :
    (E.rename hρ).resolve (t.rename ρ) = (E.resolve t).rename ρ := by
  fun_induction resolve E t with
  | case1 v s h ih =>
    have hs : (E.rename hρ).lookup (ρ v) = some (s.rename ρ) := by
      rw [lookup_rename, h]
      rfl
    rw [Term.rename_var, resolve_of_lookup hs, ih]
  | case2 v h =>
    rw [Term.rename_var]
    exact resolve_of_unbound (by rw [lookup_rename, h]; rfl)
  | case3 t ht =>
    cases t with
    | var v => exact absurd rfl (ht v)
    | atom a => exact resolve_atom _ a
    | int i => exact resolve_int _ i
    | compound f args =>
      rw [Term.rename_compound, resolve_compound]

theorem occurs_rename (v : Nat) (t : Term) :
    (E.rename hρ).occurs (ρ v) (t.rename ρ) = E.occurs v t := by
  rw [Bool.eq_iff_iff, occurs_iff, occurs_iff, apply_rename, Term.mem_vars_rename_iff hρ]

theorem reads_rename : Reads E (E.rename hρ) (fun v => .var (ρ v)) fun _ => True where
  var _ _ := ⟨_, rfl⟩
  resolve {t} _ := E.resolve_rename hρ t

def renamePairs (ρ : Nat → Nat) (pairs : List (Term × Term)) : List (Term × Term) :=
  pairs.map (Prod.map (Term.rename ρ) (Term.rename ρ))

theorem renamePairs_append (ps qs : List (Term × Term)) :
    renamePairs ρ (ps ++ qs) = renamePairs ρ ps ++ renamePairs ρ qs :=
  List.map_append

def Step.rename (ρ : Nat → Nat) : Step → Step
  | .clash => .clash
  | .decompose pairs => .decompose (renamePairs ρ pairs)
  | .assign v s => .assign (ρ v) (s.rename ρ)

include hρ in
theorem step_rename (x y : Term) : step (x.rename ρ) (y.rename ρ) = (step x y).rename ρ := by
  cases x with
  | var v =>
    cases y with
    | var w =>
      by_cases h : v = w
      · simp [step, Step.rename, renamePairs, h]
      · simp [step, Step.rename, h, hρ.ne h]
    | _ => simp [step, Step.rename]
  | atom a =>
    cases y with
    | atom b => by_cases h : a = b <;> simp [step, Step.rename, renamePairs, h]
    | _ => simp [step, Step.rename]
  | int i =>
    cases y with
    | int j => by_cases h : i = j <;> simp [step, Step.rename, renamePairs, h]
    | _ => simp [step, Step.rename]
  | compound f args =>
    cases y with
    | compound g args' =>
      by_cases h : f = g ∧ args.length = args'.length
      · simp [step, Step.rename, renamePairs, h, List.zip_map, List.map_reverse]
      · simp [step, Step.rename, h]
    | _ => simp [step, Step.rename]

theorem step_resolve_rename {E : Env} {x y : Term} {st : Step}
    (h : step (E.resolve x) (E.resolve y) = st) :
    step ((E.rename hρ).resolve (x.rename ρ)) ((E.rename hρ).resolve (y.rename ρ)) =
      st.rename ρ := by
  rw [resolve_rename, resolve_rename, step_rename hρ, h]

theorem unifyAll_rename (pending : List (Term × Term)) :
    (E.rename hρ).unifyAll (renamePairs ρ pending) = (E.unifyAll pending).map (·.rename hρ) := by
  fun_induction unifyAll E pending with
  | case1 E => rw [renamePairs, List.map_nil, unifyAll]; rfl
  | case2 E x y pending hstep => exact unifyAll_of_clash (step_resolve_rename hρ hstep)
  | case3 E x y pending pairs hstep ih =>
    rw [← ih, renamePairs_append]
    exact unifyAll_of_decompose (step_resolve_rename hρ hstep)
  | case4 E x y pending v s hstep ho =>
    exact unifyAll_of_occurs (step_resolve_rename hρ hstep) (by rw [occurs_rename, ho])
  | case5 E x y pending v s hstep ho ih =>
    have ho' : (E.rename hρ).occurs (ρ v) (s.rename ρ) = false := by
      rw [occurs_rename]
      simpa using ho
    rw [← ih]
    exact unifyAll_of_assign (step_resolve_rename hρ hstep) ho'

theorem unify_rename (a b : Term) :
    (E.rename hρ).unify (a.rename ρ) (b.rename ρ) = (E.unify a b).map (·.rename hρ) :=
  E.unifyAll_rename hρ [(a, b)]

theorem Later.rename {E F : Env} (h : E.Later F) : (E.rename hρ).Later (F.rename hρ) := by
  induction h with
  | refl => exact .refl
  | @unify F G a b _ hu ih =>
    refine ih.unify (a := a.rename ρ) (b := b.rename ρ) ?_
    rw [unify_rename, hu]
    rfl

end Env

end Signet
