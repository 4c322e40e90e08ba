import Mathlib
import Signet.Env.Simplify
import Signet.Proofs.Env.Lists

/-! # The answers of a cursor

A list stands for cells and a last tail, all of them behind any bindings. Called again and again, a
cursor answers with the heads of the cells, as many as its limit allows; then, unless it has come to
`[]`, with one error; and then with nothing, however often it is called. -/
namespace Signet

namespace Term

theorem exists_ofList (t : Term) : ∃ heads last, t = ofList heads last ∧ last.isCons = false := by
  induction t using induct with
  | var v => exact ⟨[], _, rfl, rfl⟩
  | atom a => exact ⟨[], _, rfl, rfl⟩
  | int i => exact ⟨[], _, rfl, rfl⟩
  | compound f args ih =>
    cases hc : (compound f args).isCons with
    | false => exact ⟨[], _, rfl, hc⟩
    | true =>
      obtain ⟨head, tail, hcell⟩ := isCons_iff.mp hc
      obtain ⟨rfl, rfl⟩ := compound.inj hcell
      obtain ⟨heads, last, rfl, hlast⟩ := ih tail (by simp)
      exact ⟨head :: heads, last, rfl, hlast⟩

end Term

namespace Cursor

/-- The cursor that a call leaves behind, whatever it gives. -/
def after (E : Env) (c : Cursor) : Cursor :=
  match c.next? E with
  | some (_, c') => c'
  | none => c.spent

/-- What the call numbered `n` gives, counted from zero. -/
def answer (E : Env) (c : Cursor) : Nat → Option (Except TermError Term)
  | 0 => (c.next? E).map Prod.fst
  | n + 1 => (c.after E).answer E n

variable {E : Env} {c c' : Cursor}

theorem answer_of_none (h : c.next? E = none) (n : Nat) : c.answer E n = none := by
  induction n generalizing c with
  | zero => rw [answer, h, Option.map_none]
  | succ n ih =>
    rw [answer, after, h]
    exact ih rfl

theorem answer_zero {r : Except TermError Term} (h : c.next? E = some (r, c')) :
    c.answer E 0 = some r := by
  rw [answer, h, Option.map_some]

theorem answer_succ {r : Except TermError Term} (h : c.next? E = some (r, c')) (n : Nat) :
    c.answer E (n + 1) = c'.answer E n := by
  rw [answer, after, h]

/-- The answers before the end: the items, and the error if there is one. -/
def outputs (walked : List Term × Option TermError) : List (Except TermError Term) :=
  walked.1.map .ok ++ (walked.2.map Except.error).toList

theorem outputs_of_none (h : c.next? E = none) : outputs (c.drain E []) = [] := by
  rw [drain_of_none h]
  rfl

theorem outputs_of_error {e : TermError} (h : c.next? E = some (.error e, c')) :
    outputs (c.drain E []) = [.error e] := by
  rw [drain_of_error h]
  rfl

theorem outputs_of_ok {t : Term} (h : c.next? E = some (.ok t, c')) :
    outputs (c.drain E []) = .ok t :: outputs (c'.drain E []) := by
  rw [drain_of_ok h, ← List.nil_append [t], drain_append]
  rfl

theorem answer_eq (E : Env) (c : Cursor) (n : Nat) :
    c.answer E n = (outputs (c.drain E []))[n]? := by
  induction n generalizing c with
  | zero =>
    cases h : c.next? E with
    | none => rw [answer_of_none h, outputs_of_none h, List.getElem?_nil]
    | some p =>
      obtain ⟨r, c'⟩ := p
      cases r with
      | error e => rw [answer_zero h, outputs_of_error h, List.getElem?_cons_zero]
      | ok t => rw [answer_zero h, outputs_of_ok h, List.getElem?_cons_zero]
  | succ n ih =>
    cases h : c.next? E with
    | none => rw [answer_of_none h, outputs_of_none h, List.getElem?_nil]
    | some p =>
      obtain ⟨r, c'⟩ := p
      cases r with
      | error e =>
        rw [answer_succ h, answer_of_none (next?_of_error h), outputs_of_error h,
          List.getElem?_cons_succ, List.getElem?_nil]
      | ok t => rw [answer_succ h, ih, outputs_of_ok h, List.getElem?_cons_succ]

end Cursor

namespace Env

/-- What ends a walk over a list with so many cells and this last tail. -/
inductive Ending (E : Env) (limit cells : Nat) (last : Term) : Option TermError → Prop
  | tooLong : limit < cells → Ending E limit cells last (some (.tooLong limit))
  | proper : cells ≤ limit → last = .nil → Ending E limit cells last none
  | unbound {v : Nat} : cells ≤ limit → last = .var v → E.lookup v = none →
      Ending E limit cells last (some (.instantiation (.var v)))
  | improper {culprit : Term} : cells ≤ limit → last ≠ .nil → (∀ v, last ≠ .var v) →
      E.simplify culprit = last → Ending E limit cells last (some (.type .list culprit))

variable {E : Env} {limit left taken : Nat} {t last : Term}

theorem exists_ending (hlimit : taken ≤ limit) (hlast : last.isCons = false)
    (h : E.apply t = last) :
    ∃ stop, E.walk limit left t = ([], stop) ∧ Ending E limit taken last stop := by
  rcases (E.resolve t).list_cases with hr | ⟨head, tail, hr⟩ | ⟨v, hr⟩ | ⟨hv, hl⟩
  · exact ⟨_, walk_nil hr, .proper hlimit (by rw [← h, resolve_eq_atom_iff.mp hr, Term.nil])⟩
  · rw [← h, apply_of_resolve_cons hr] at hlast
    cases hlast
  · refine ⟨_, walk_var hr, .unbound hlimit ?_ (lookup_of_resolve hr)⟩
    rw [← h, resolve_eq_var_iff.mp hr]
  · have hnil : last ≠ .nil := by
      intro he
      have hr : E.resolve t = .nil := resolve_eq_atom_iff.mpr (h.trans he)
      rw [hr] at hl
      cases hl
    have hvar : ∀ v, last ≠ .var v := by
      intro v he
      exact hv v (resolve_eq_var_iff.mpr (h.trans he))
    have hculprit : E.simplify (E.resolve t) = last := by rw [simplify_eq, apply_resolve, h]
    exact ⟨_, walk_improper hv hl, .improper hlimit hnil hvar hculprit⟩

/-- With some cells taken and the rest of the limit left, a walk goes on as the cells do. -/
theorem exists_walk {heads : List Term} (hlimit : limit = taken + left)
    (hlast : last.isCons = false) (h : E.apply t = .ofList heads last) :
    ∃ items stop, E.walk limit left t = (items, stop) ∧ items.map E.apply = heads.take left ∧
      (∀ v, .var v ∈ items → E.lookup v = none) ∧
      Ending E limit (taken + heads.length) last stop := by
  -- on the cells of what the term stands for; the walk resolves one of them at each step
  induction heads generalizing t left taken with
  | nil =>
    have hle : taken ≤ limit := by omega
    obtain ⟨stop, hwalk, hending⟩ :
        ∃ stop, E.walk limit left t = ([], stop) ∧ Ending E limit taken last stop :=
      exists_ending hle hlast h
    exact ⟨[], stop, hwalk, by simp, by simp, hending⟩
  | cons x heads ih =>
    obtain ⟨head, tail, hr⟩ := resolve_of_apply_cons h
    have hcell : E.apply t = .cons x (.ofList heads last) := h
    rw [apply_of_resolve_cons hr, Term.cons, Term.cons] at hcell
    obtain ⟨hhead, htail⟩ : E.apply head = x ∧ E.apply tail = .ofList heads last := by
      simpa using hcell
    cases left with
    | zero =>
      refine ⟨[], _, walk_full hr, by simp, by simp, .tooLong ?_⟩
      rw [List.length_cons]
      omega
    | succ left =>
      have hlimit' : limit = (taken + 1) + left := by omega
      obtain ⟨items, stop, hwalk, hitems, hopen, hending⟩ := ih hlimit' htail
      have hlen : taken + (x :: heads).length = (taken + 1) + heads.length := by
        rw [List.length_cons]
        omega
      refine ⟨E.resolve head :: items, stop, by rw [walk_cons hr, hwalk], ?_, ?_, hlen ▸ hending⟩
      · rw [List.map_cons, hitems, apply_resolve, hhead, List.take_succ_cons]
      · intro v hv
        rcases List.mem_cons.mp hv with he | hv
        · exact lookup_of_resolve he.symm
        · exact hopen v hv

/-- The answers of a cursor over a list, call by call. The list stands for cells with these heads
and a last tail; what is not among the first answers is nothing. -/
theorem answers_exact (E : Env) (t : Term) (limit : Nat) :
    ∃ (heads : List Term) (last : Term) (items : List Term) (stop : Option TermError),
      E.simplify t = .ofList heads last ∧ last.isCons = false ∧
      items.map E.simplify = heads.take limit ∧ (∀ v, .var v ∈ items → E.lookup v = none) ∧
      Ending E limit heads.length last stop ∧
      ∀ n, (Cursor.start t limit).answer E n =
        (items.map Except.ok ++ (stop.map Except.error).toList)[n]? := by
  obtain ⟨heads, last, hcells, hlast⟩ := (E.apply t).exists_ofList
  obtain ⟨items, stop, hwalk, hitems, hopen, hending⟩ :=
    exists_walk (Nat.zero_add limit).symm hlast hcells
  refine ⟨heads, last, items, stop, by rw [simplify_eq, hcells], hlast, ?_, hopen, ?_, ?_⟩
  · rw [← hitems]
    exact List.map_congr_left fun x _ => simplify_eq E x
  · rwa [Nat.zero_add] at hending
  · intro n
    have hanswer := Cursor.answer_eq E (Cursor.start t limit) n
    have hdrain : (Cursor.start t limit).drain E [] = (items, stop) := hwalk
    rw [hanswer, hdrain]
    rfl

end Env

end Signet
