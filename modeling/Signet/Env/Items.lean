import Signet.Env.Basic
import Signet.Term.Error

/-! The items of a list. A cursor walks the cells of a list under bindings and gives each
head, resolved. It gives at most one error: at the first cell past its limit, or at a last
tail other than `[]`; after that it is spent. `items` walks to the end. -/

namespace Signet

/-- The longest list that is walked when no other limit is given. -/
def defaultListLimit : Nat := 1048576

structure Cursor where
  /-- The list still to walk; `none` after an error. -/
  rest : Option Term
  limit : Nat
  /-- The cells that may still be taken. -/
  left : Nat

namespace Cursor

def start (list : Term) (limit : Nat) : Cursor := ⟨some list, limit, limit⟩

def spent (c : Cursor) : Cursor := { c with rest := none }

/-- The next item or the error that ends the walk; `none` at the end and after an error. -/
def next? (E : Env) (c : Cursor) : Option (Except TermError Term × Cursor) :=
  match c.rest with
  | none => none
  | some list =>
    match E.resolve list with
    | .atom "[]" => none
    | .compound "." [head, tail] =>
      if c.left = 0 then some (.error (.tooLong c.limit), c.spent)
      else some (.ok (E.resolve head), { c with rest := some tail, left := c.left - 1 })
    | .var v => some (.error (.instantiation (.var v)), c.spent)
    | other => some (.error (.type .list other), c.spent)

theorem left_lt_of_next? {E : Env} {c c' : Cursor} {t : Term}
    (h : c.next? E = some (.ok t, c')) : c'.left < c.left := by
  unfold next? at h
  split at h
  · cases h
  · split at h
    · cases h
    · split at h
      · cases h
      · cases h
        simp only
        omega
    · cases h
    · cases h

theorem next?_of_error {E : Env} {c c' : Cursor} {e : TermError}
    (h : c.next? E = some (.error e, c')) : c'.next? E = none := by
  unfold next? at h
  split at h
  · cases h
  · split at h
    · cases h
    · split at h <;> cases h
      rfl
    · cases h; rfl
    · cases h; rfl

/-- The items up to the end, behind those in `taken` (last first), and the error that ended
the walk, if one did. -/
def drain (E : Env) (c : Cursor) (taken : List Term) : List Term × Option TermError :=
  match _h : c.next? E with
  | none => (taken.reverse, none)
  | some (.error e, _) => (taken.reverse, some e)
  | some (.ok t, c') => c'.drain E (t :: taken)
termination_by c.left
decreasing_by exact left_lt_of_next? _h

theorem drain_of_none {E : Env} {c : Cursor} {taken : List Term} (h : c.next? E = none) :
    c.drain E taken = (taken.reverse, none) := by
  rw [drain]
  split <;> simp_all

theorem drain_of_error {E : Env} {c c' : Cursor} {taken : List Term} {e : TermError}
    (h : c.next? E = some (.error e, c')) : c.drain E taken = (taken.reverse, some e) := by
  rw [drain]
  split <;> simp_all

theorem drain_of_ok {E : Env} {c c' : Cursor} {taken : List Term} {t : Term}
    (h : c.next? E = some (.ok t, c')) : c.drain E taken = c'.drain E (t :: taken) := by
  rw [drain]
  split <;> simp_all

end Cursor

/-- The items of a list of at most `limit` cells, and what ended it if not `[]`. -/
def Env.items (E : Env) (limit : Nat) (list : Term) : List Term × Option TermError :=
  (Cursor.start list limit).drain E []

theorem Env.items_nil (E : Env) (limit : Nat) : E.items limit .nil = ([], none) :=
  Cursor.drain_of_none (by simp [Cursor.next?, Cursor.start, Term.nil])

end Signet
