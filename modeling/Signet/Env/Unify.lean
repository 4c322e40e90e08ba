import Signet.Env.Occurs

/-! Unification on a stack of equations, the top one first. An equation between two
compounds with one head leaves one equation per argument, the last argument on top; an
equation with an unbound variable binds it, the left one if both sides are unbound
variables, unless the variable occurs in the other side. Each binding takes a variable out
of the equations still open, and each other step takes weight off them. -/

namespace Signet.Env

open Term

/-- What an equation between two resolved terms asks for. -/
inductive Step where
  | clash
  | decompose (pairs : List (Term × Term))
  | assign (v : Nat) (s : Term)

def step : Term → Term → Step
  | .var v, .var w => if v = w then .decompose [] else .assign v (.var w)
  | .var v, t => .assign v t
  | t, .var v => .assign v t
  | .atom a, .atom b => if a = b then .decompose [] else .clash
  | .int i, .int j => if i = j then .decompose [] else .clash
  | .compound f args, .compound g args' =>
    if f = g ∧ args.length = args'.length then .decompose (args.zip args').reverse else .clash
  | _, _ => .clash

theorem step_assign {x y s : Term} {v : Nat} (h : step x y = .assign v s) :
    (x = .var v ∧ s = y) ∨ (y = .var v ∧ s = x) := by
  unfold step at h
  split at h
  · split at h
    · cases h
    · cases h; exact .inl ⟨rfl, rfl⟩
  · cases h; exact .inl ⟨rfl, rfl⟩
  · cases h; exact .inr ⟨rfl, rfl⟩
  all_goals first | (split at h <;> cases h) | cases h

theorem step_decompose {x y : Term} {pairs : List (Term × Term)}
    (h : step x y = .decompose pairs) :
    (x = y ∧ pairs = []) ∨ ∃ f args args', x = .compound f args ∧ y = .compound f args' ∧
      args.length = args'.length ∧ pairs = (args.zip args').reverse := by
  unfold step at h
  split at h
  · split at h
    · rename_i e
      cases h
      exact .inl ⟨congrArg _ e, rfl⟩
    · cases h
  · cases h
  · cases h
  · split at h
    · rename_i e
      cases h
      exact .inl ⟨congrArg _ e, rfl⟩
    · cases h
  · split at h
    · rename_i e
      cases h
      exact .inl ⟨congrArg _ e, rfl⟩
    · cases h
  · split at h
    · rename_i e
      cases h
      exact .inr ⟨_, _, _, rfl, by rw [e.1], e.2, rfl⟩
    · cases h
  · cases h

/-- Number of different entries. -/
def distinct : List Nat → Nat
  | [] => 0
  | v :: vs => if v ∈ vs then distinct vs else 1 + distinct vs

theorem distinct_of_mem {v : Nat} {vs : List Nat} (h : v ∈ vs) :
    distinct vs = 1 + distinct (vs.filter (· ≠ v)) := by
  induction vs with
  | nil => cases h
  | cons w ws ih =>
    by_cases hw : w ∈ ws
    · by_cases hv : v ∈ ws
      · by_cases hwv : w = v
        · simp [distinct, hwv, hv, ih hv]
        · simp [distinct, hw, hwv, ih hv]
      · have hvw : v = w := by simpa [hv] using h
        exact absurd (hvw ▸ hw) hv
    · by_cases hwv : w = v
      · subst hwv
        have : ws.filter (· ≠ w) = ws := List.filter_eq_self.mpr fun u hu => by
          simp only [ne_eq, decide_eq_true_eq]
          rintro rfl
          exact hw hu
        rw [distinct, if_neg hw, List.filter_cons_of_neg (by simp), this]
      · have hv : v ∈ ws := by simpa [Ne.symm hwv] using h
        simp [distinct, hw, hwv, ih hv]

theorem distinct_le_of_subset {vs ws : List Nat} (h : ∀ u ∈ vs, u ∈ ws) :
    distinct vs ≤ distinct ws := by
  induction vs generalizing ws with
  | nil => simp [distinct]
  | cons v vs ih =>
    by_cases hv : v ∈ vs
    · simpa [distinct, hv] using ih fun u hu => h u (List.mem_cons_of_mem _ hu)
    · rw [distinct, if_neg hv, distinct_of_mem (h v List.mem_cons_self)]
      refine Nat.add_le_add_left (ih fun u hu => ?_) 1
      simp only [List.mem_filter, ne_eq, decide_eq_true_eq]
      exact ⟨h u (List.mem_cons_of_mem _ hu), fun e => hv (e ▸ hu)⟩

theorem distinct_lt {v : Nat} {vs ws : List Nat} (hv : v ∈ ws) (h : ∀ u ∈ vs, u ∈ ws ∧ u ≠ v) :
    distinct vs < distinct ws := by
  rw [distinct_of_mem hv]
  have : distinct vs ≤ distinct (ws.filter (· ≠ v)) := distinct_le_of_subset fun u hu => by
    simpa using h u hu
  omega

/-- The unbound variables of open equations. -/
def openVars (E : Env) (pairs : List (Term × Term)) : List Nat :=
  pairs.flatMap fun p => (E.apply p.1).vars ++ (E.apply p.2).vars

def openWeight (E : Env) (pairs : List (Term × Term)) : Nat :=
  total (fun p => E.weight p.1 + E.weight p.2) pairs

/-- The environment in which `v`, unbound and absent from `s`, is bound to `s`. -/
def bind (E : Env) (v : Nat) (s : Term) (hv : E.lookup v = none) (hs : E.occurs v s = false) :
    Env :=
  ⟨(v, s) :: E.bindings, E.triangular, hv, fun h => by
    rw [(occurs_iff v s).mpr h] at hs
    cases hs⟩

@[simp] theorem bindings_bind {E : Env} {v : Nat} {s : Term} {hv : E.lookup v = none}
    {hs : E.occurs v s = false} : (E.bind v s hv hs).bindings = (v, s) :: E.bindings :=
  rfl

theorem apply_bind {E : Env} {v : Nat} {s : Term} {hv : E.lookup v = none}
    {hs : E.occurs v s = false} (t : Term) :
    (E.bind v s hv hs).apply t = (E.apply t).bind (single v (E.apply s)) :=
  rfl

theorem mem_vars_apply_bind {E : Env} {v : Nat} {s : Term} {hv : E.lookup v = none}
    {hs : E.occurs v s = false} {t : Term} {w : Nat}
    (h : w ∈ ((E.bind v s hv hs).apply t).vars) :
    (w ∈ (E.apply t).vars ∨ w ∈ (E.apply s).vars) ∧ w ≠ v := by
  have hsv : v ∉ (E.apply s).vars := fun h => by
    rw [(occurs_iff v s).mpr h] at hs
    cases hs
  rw [apply_bind, mem_vars_bind] at h
  obtain ⟨u, hu, hw⟩ := h
  by_cases e : u = v
  · subst e
    rw [single_self] at hw
    exact ⟨.inr hw, fun e => hsv (e ▸ hw)⟩
  · rw [single_of_ne _ e, vars, List.mem_singleton] at hw
    subst hw
    exact ⟨.inl hu, e⟩

theorem unbound_of_step {E : Env} {x y s : Term} {v : Nat}
    (h : step (E.resolve x) (E.resolve y) = .assign v s) : E.lookup v = none := by
  rcases step_assign h with ⟨hx, _⟩ | ⟨hy, _⟩
  · exact lookup_of_resolve hx
  · exact lookup_of_resolve hy

theorem mem_openVars_of_step {E : Env} {x y s : Term} {v : Nat} (pending : List (Term × Term))
    (h : step (E.resolve x) (E.resolve y) = .assign v s) :
    v ∈ E.openVars ((x, y) :: pending) ∧
      ∀ w ∈ (E.apply s).vars, w ∈ E.openVars ((x, y) :: pending) := by
  have hv := apply_of_unbound (unbound_of_step h)
  simp only [openVars, List.flatMap_cons, List.mem_append]
  rcases step_assign h with ⟨hx, rfl⟩ | ⟨hy, rfl⟩
  · rw [← apply_resolve E x, hx, hv, apply_resolve]
    exact ⟨.inl (.inl (by simp [vars])), fun w hw => .inl (.inr hw)⟩
  · rw [← apply_resolve E y, hy, hv, apply_resolve]
    exact ⟨.inl (.inr (by simp [vars])), fun w hw => .inl (.inl hw)⟩

theorem mem_openVars_bind {E : Env} {x y s : Term} {v u : Nat} {pending : List (Term × Term)}
    (h : step (E.resolve x) (E.resolve y) = .assign v s) (hs : E.occurs v s = false)
    (hu : u ∈ (E.bind v s (unbound_of_step h) hs).openVars pending) :
    u ∈ E.openVars ((x, y) :: pending) ∧ u ≠ v := by
  obtain ⟨hv, hsub⟩ := mem_openVars_of_step pending h
  simp only [openVars, List.mem_flatMap, List.mem_append] at hu
  obtain ⟨p, hp, hu | hu⟩ := hu
  · obtain ⟨hu | hu, hne⟩ := mem_vars_apply_bind hu
    · refine ⟨?_, hne⟩
      simp only [openVars, List.flatMap_cons, List.mem_append, List.mem_flatMap]
      exact .inr ⟨p, hp, .inl hu⟩
    · exact ⟨hsub u hu, hne⟩
  · obtain ⟨hu | hu, hne⟩ := mem_vars_apply_bind hu
    · refine ⟨?_, hne⟩
      simp only [openVars, List.flatMap_cons, List.mem_append, List.mem_flatMap]
      exact .inr ⟨p, hp, .inr hu⟩
    · exact ⟨hsub u hu, hne⟩

theorem distinct_openVars_bind {E : Env} {x y s : Term} {v : Nat} {pending : List (Term × Term)}
    (h : step (E.resolve x) (E.resolve y) = .assign v s) (hs : E.occurs v s = false) :
    distinct ((E.bind v s (unbound_of_step h) hs).openVars pending) <
      distinct (E.openVars ((x, y) :: pending)) :=
  distinct_lt (mem_openVars_of_step pending h).1 fun _ hu => mem_openVars_bind h hs hu

theorem openWeight_append (E : Env) (ps qs : List (Term × Term)) :
    E.openWeight (ps ++ qs) = E.openWeight ps + E.openWeight qs := by
  exact total_append ..

theorem openWeight_zip_le (E : Env) (args args' : List Term) :
    E.openWeight (args.zip args').reverse ≤ total E.weight args + total E.weight args' := by
  induction args generalizing args' with
  | nil => simp [openWeight, total]
  | cons a as ih =>
    cases args' with
    | nil => simp [openWeight, total]
    | cons b bs =>
      have := ih bs
      simp only [List.zip_cons_cons, List.reverse_cons, openWeight_append, total]
      simp only [openWeight, total] at this ⊢
      omega

theorem openWeight_of_step {E : Env} {x y : Term} {pairs : List (Term × Term)}
    (pending : List (Term × Term)) (h : step (E.resolve x) (E.resolve y) = .decompose pairs) :
    E.openWeight (pairs ++ pending) < E.openWeight ((x, y) :: pending) := by
  have hx := weight_resolve_le E x
  have hy := weight_resolve_le E y
  have hpos := weight_pos E x
  rw [openWeight_append]
  simp only [openWeight, total]
  rcases step_decompose h with ⟨_, rfl⟩ | ⟨f, args, args', ex, ey, _, rfl⟩
  · simp only [total]
    omega
  · rw [ex, weight_compound] at hx
    rw [ey, weight_compound] at hy
    have := openWeight_zip_le E args args'
    simp only [openWeight] at this
    omega

theorem mem_openVars_decompose {E : Env} {x y : Term} {pairs : List (Term × Term)} {u : Nat}
    {pending : List (Term × Term)} (h : step (E.resolve x) (E.resolve y) = .decompose pairs)
    (hu : u ∈ E.openVars (pairs ++ pending)) : u ∈ E.openVars ((x, y) :: pending) := by
  simp only [openVars, List.flatMap_append, List.flatMap_cons, List.mem_append] at hu ⊢
  rcases hu with hu | hu
  · refine .inl ?_
    rcases step_decompose h with ⟨_, rfl⟩ | ⟨f, args, args', ex, ey, _, rfl⟩
    · cases hu
    · rw [← apply_resolve E x, ← apply_resolve E y, ex, ey, apply_compound, apply_compound,
        vars_compound, vars_compound]
      simp only [List.flatMap_map, List.mem_flatMap, List.mem_reverse, List.mem_append] at hu ⊢
      obtain ⟨p, hp, hu | hu⟩ := hu
      · exact .inl ⟨p.1, (List.of_mem_zip hp).1, hu⟩
      · exact .inr ⟨p.2, (List.of_mem_zip hp).2, hu⟩
  · exact .inr hu

theorem openVars_of_step {E : Env} {x y : Term} {pairs : List (Term × Term)}
    (pending : List (Term × Term)) (h : step (E.resolve x) (E.resolve y) = .decompose pairs) :
    distinct (E.openVars (pairs ++ pending)) ≤ distinct (E.openVars ((x, y) :: pending)) :=
  distinct_le_of_subset fun _ hu => mem_openVars_decompose h hu

/-- Solves the open equations in an environment. -/
def unifyAll (E : Env) (pending : List (Term × Term)) : Option Env :=
  match pending with
  | [] => some E
  | (x, y) :: pending =>
    match _h : step (E.resolve x) (E.resolve y) with
    | .clash => none
    | .decompose pairs => unifyAll E (pairs ++ pending)
    | .assign v s =>
      if ho : E.occurs v s then none
      else unifyAll (E.bind v s (unbound_of_step _h) (by simpa using ho)) pending
termination_by (distinct (E.openVars pending), E.openWeight pending)
decreasing_by
  · have hv := openVars_of_step pending _h
    have hw := openWeight_of_step pending _h
    rcases Nat.lt_or_eq_of_le hv with hv | hv
    · exact Prod.Lex.left _ _ hv
    · rw [hv]
      exact Prod.Lex.right _ hw
  · exact Prod.Lex.left _ _ (distinct_openVars_bind _h _)

theorem unifyAll_of_clash {E : Env} {x y : Term} {pending : List (Term × Term)}
    (h : step (E.resolve x) (E.resolve y) = .clash) :
    E.unifyAll ((x, y) :: pending) = none := by
  rw [unifyAll]
  split <;> simp_all

theorem unifyAll_of_decompose {E : Env} {x y : Term} {pending pairs : List (Term × Term)}
    (h : step (E.resolve x) (E.resolve y) = .decompose pairs) :
    E.unifyAll ((x, y) :: pending) = E.unifyAll (pairs ++ pending) := by
  rw [unifyAll]
  split <;> simp_all

theorem unifyAll_of_occurs {E : Env} {x y s : Term} {v : Nat} {pending : List (Term × Term)}
    (h : step (E.resolve x) (E.resolve y) = .assign v s) (ho : E.occurs v s = true) :
    E.unifyAll ((x, y) :: pending) = none := by
  rw [unifyAll]
  split <;> simp_all

theorem unifyAll_of_assign {E : Env} {x y s : Term} {v : Nat} {pending : List (Term × Term)}
    (h : step (E.resolve x) (E.resolve y) = .assign v s) (ho : E.occurs v s = false) :
    E.unifyAll ((x, y) :: pending) =
      (E.bind v s (unbound_of_step h) ho).unifyAll pending := by
  rw [unifyAll]
  split
  · simp_all
  · simp_all
  · rename_i w r hw
    rw [h] at hw
    cases hw
    rw [dif_neg (by simp [ho])]

/-- The environment extended by the bindings that make `a` and `b` equal, if any do. -/
def unify (E : Env) (a b : Term) : Option Env := unifyAll E [(a, b)]

end Signet.Env
