/-! Logic terms. A compound carries a list of arguments, so a term is a tree of any
width; the induction principle `Term.induct` hands out one hypothesis per argument.
A list of terms is the chain of cells `'.'(Head, Tail)` that ends in the atom `[]`. -/

namespace Signet

/-- The sum of a measure over a list. -/
def total {α : Type} (f : α → Nat) : List α → Nat
  | [] => 0
  | x :: xs => f x + total f xs

theorem total_append {α : Type} (f : α → Nat) (xs ys : List α) :
    total f (xs ++ ys) = total f xs + total f ys := by
  induction xs with
  | nil => simp [total]
  | cons x xs ih => simp only [List.cons_append, total, ih, Nat.add_assoc]

theorem total_reverse {α : Type} (f : α → Nat) (xs : List α) :
    total f xs.reverse = total f xs := by
  induction xs with
  | nil => rfl
  | cons x xs ih =>
    rw [List.reverse_cons, total_append, ih]
    simp only [total, Nat.add_zero, Nat.add_comm]

theorem le_total {α : Type} {f : α → Nat} {x : α} {xs : List α} (h : x ∈ xs) :
    f x ≤ total f xs := by
  induction xs with
  | nil => cases h
  | cons y ys ih =>
    rw [total]
    rcases List.mem_cons.mp h with rfl | h
    · exact Nat.le_add_right ..
    · exact Nat.le_trans (ih h) (Nat.le_add_left ..)

inductive Term where
  | var (id : Nat)
  | atom (name : String)
  | int (value : Int64)
  | compound (functor : String) (args : List Term)
  deriving Inhabited

namespace Term

theorem induct {motive : Term → Prop} (var : ∀ v, motive (.var v))
    (atom : ∀ a, motive (.atom a)) (int : ∀ i, motive (.int i))
    (compound : ∀ f args, (∀ a ∈ args, motive a) → motive (.compound f args)) (t : Term) :
    motive t :=
  @Term.rec motive (fun args => ∀ a ∈ args, motive a)
    var atom int compound (by simp) (fun _ _ hd tl => by simpa using ⟨hd, tl⟩) t

mutual

/-- Number of nodes. -/
def size : Term → Nat
  | .compound _ args => 1 + sizeArgs args
  | _ => 1

def sizeArgs : List Term → Nat
  | [] => 0
  | t :: ts => t.size + sizeArgs ts

end

theorem sizeArgs_eq (args : List Term) : sizeArgs args = total size args := by
  induction args with
  | nil => rfl
  | cons t ts ih => rw [sizeArgs, total, ih]

theorem size_compound (f : String) (args : List Term) :
    (compound f args).size = 1 + total size args := by
  rw [size, sizeArgs_eq]

theorem size_pos (t : Term) : 0 < t.size := by
  cases t <;> simp only [size] <;> omega

mutual

/-- The variables of a term from left to right, one entry per occurrence. -/
def vars : Term → List Nat
  | .var v => [v]
  | .compound _ args => varsArgs args
  | _ => []

def varsArgs : List Term → List Nat
  | [] => []
  | t :: ts => t.vars ++ varsArgs ts

end

theorem vars_compound (f : String) (args : List Term) :
    (compound f args).vars = args.flatMap vars := by
  rw [vars]
  induction args with
  | nil => rfl
  | cons t ts ih => simp [varsArgs, ih]

mutual

/-- The term with every variable `v` replaced by `σ v`. -/
def bind (σ : Nat → Term) : Term → Term
  | .var v => σ v
  | .compound f args => .compound f (bindArgs σ args)
  | t => t

def bindArgs (σ : Nat → Term) : List Term → List Term
  | [] => []
  | t :: ts => t.bind σ :: bindArgs σ ts

end

theorem bind_compound (σ : Nat → Term) (f : String) (args : List Term) :
    (compound f args).bind σ = compound f (args.map (bind σ)) := by
  rw [bind]
  congr 1
  induction args with
  | nil => rfl
  | cons t ts ih => simp [bindArgs, ih]

theorem bind_congr {σ τ : Nat → Term} {t : Term} (h : ∀ v ∈ t.vars, σ v = τ v) :
    t.bind σ = t.bind τ := by
  induction t using induct with
  | var v => exact h v (by simp [vars])
  | atom a => rfl
  | int i => rfl
  | compound f args ih =>
    rw [bind_compound, bind_compound]
    congr 1
    refine List.map_congr_left fun a ha => ih a ha fun v hv => h v ?_
    rw [vars_compound]
    exact List.mem_flatMap.mpr ⟨a, ha, hv⟩

theorem bind_var (t : Term) : t.bind .var = t := by
  induction t using induct with
  | var v => rfl
  | atom a => rfl
  | int i => rfl
  | compound f args ih =>
    rw [bind_compound]
    congr 1
    exact (List.map_congr_left ih).trans (List.map_id' args)

theorem bind_bind (σ τ : Nat → Term) (t : Term) :
    (t.bind σ).bind τ = t.bind fun v => (σ v).bind τ := by
  induction t using induct with
  | var v => rfl
  | atom a => rfl
  | int i => rfl
  | compound f args ih =>
    simp only [bind_compound, List.map_map]
    congr 1
    exact List.map_congr_left fun a ha => ih a ha

theorem mem_vars_bind {σ : Nat → Term} {t : Term} {w : Nat} :
    w ∈ (t.bind σ).vars ↔ ∃ v ∈ t.vars, w ∈ (σ v).vars := by
  induction t using induct with
  | var v => simp [bind, vars]
  | atom a => simp [bind, vars]
  | int i => simp [bind, vars]
  | compound f args ih =>
    simp only [bind_compound, vars_compound, List.mem_flatMap, List.mem_map]
    constructor
    · rintro ⟨_, ⟨a, ha, rfl⟩, hw⟩
      obtain ⟨v, hv, hw⟩ := (ih a ha).mp hw
      exact ⟨v, ⟨a, ha, hv⟩, hw⟩
    · rintro ⟨v, ⟨a, ha, hv⟩, hw⟩
      exact ⟨_, ⟨a, ha, rfl⟩, (ih a ha).mpr ⟨v, hv, hw⟩⟩

/-- The substitution that replaces `v` by `s` and leaves every other variable. -/
def single (v : Nat) (s : Term) (w : Nat) : Term := if w = v then s else .var w

@[simp] theorem single_self (v : Nat) (s : Term) : single v s v = s := if_pos rfl

theorem single_of_ne {v w : Nat} (s : Term) (h : w ≠ v) : single v s w = .var w := if_neg h

theorem bind_single_of_not_mem {v : Nat} {s t : Term} (h : v ∉ t.vars) :
    t.bind (single v s) = t := by
  rw [bind_congr (τ := .var), bind_var]
  exact fun w hw => single_of_ne s fun e => h (e ▸ hw)

/-- The empty list. -/
def nil : Term := .atom "[]"

/-- A list cell. -/
def cons (head tail : Term) : Term := .compound "." [head, tail]

/-- The list of `items` that goes on as `tail`: a partial list when `tail` is a variable. -/
def ofList (items : List Term) (tail : Term := nil) : Term := items.foldr cons tail

def isVar : Term → Bool
  | .var _ => true
  | _ => false

def isNil : Term → Bool
  | .atom a => a == "[]"
  | _ => false

def isCons : Term → Bool
  | .compound f [_, _] => f == "."
  | _ => false

theorem isCons_iff {t : Term} : t.isCons = true ↔ ∃ head tail, t = cons head tail := by
  constructor
  · intro h
    unfold isCons at h
    split at h
    · exact ⟨_, _, by rw [eq_of_beq h]; rfl⟩
    · cases h
  · intro h
    obtain ⟨head, tail, rfl⟩ := h
    rfl

/-- Whether the term is `[]` or a list cell; the tail is not looked at. -/
def isListLike (t : Term) : Bool := t.isNil || t.isCons

end Term

end Signet
