import Mathlib
import Signet.Proofs.Env.Cells
import Signet.Proofs.Options.Scan

/-! # The entry that decides a look-up

An entry either is passed over or decides the result on its own, so the first one that decides
settles the look-up, and nothing behind it counts. Only where none decides do the last tail and the
number of cells matter. -/
namespace Signet.Options

/-- A compound with another functor is passed over, whatever its arity. -/
def Skipped (key : String) (entry : Term) : Prop := ∃ f args, entry = .compound f args ∧ f ≠ key

/-- What an entry decides that is not passed over. -/
inductive Decides (key : String) : Term → Except ErrorKind Term → Prop
  | value (value : Term) : Decides key (.compound key [value]) (.ok value)
  | arity {args : List Term} : args.length ≠ 1 →
      Decides key (.compound key args) (.error (.domain "option" (.compound key args) []))
  | unbound (v : Nat) : Decides key (.var v) (.error (.instantiation (.var v)))
  | atom (a : String) : Decides key (.atom a) (.error (.type .compound (.atom a)))
  | int (i : Int64) : Decides key (.int i) (.error (.type .compound (.int i)))

/-- The result of a look-up in a list with these entries and this last tail. -/
inductive Outcome (key : String) (default : Term) (entries : List Term) (last : Term) :
    Except ErrorKind Term → Prop
  | decided {before behind : List Term} {entry : Term} {r : Except ErrorKind Term} :
      entries = before ++ entry :: behind → before.length < defaultListLimit →
      (∀ e ∈ before, Skipped key e) → Decides key entry r → Outcome key default entries last r
  | tooLong : defaultListLimit < entries.length →
      (∀ e ∈ entries.take defaultListLimit, Skipped key e) →
      Outcome key default entries last (.error (.resource "list length" defaultListLimit))
  | defaulted : entries.length ≤ defaultListLimit → (∀ e ∈ entries, Skipped key e) →
      last = .nil → Outcome key default entries last (.ok default)
  | openTail {v : Nat} : entries.length ≤ defaultListLimit → (∀ e ∈ entries, Skipped key e) →
      last = .var v → Outcome key default entries last (.error (.instantiation (.var v)))
  | noList : entries.length ≤ defaultListLimit → (∀ e ∈ entries, Skipped key e) →
      last ≠ .nil → (∀ v, last ≠ .var v) →
      Outcome key default entries last (.error (.type .list last))

variable {key : String} {default entry : Term} {r : Except ErrorKind Term}

theorem skipped_or_decides (key : String) (entry : Term) :
    Skipped key entry ∨ ∃ r, Decides key entry r := by
  cases entry with
  | var v => exact .inr ⟨_, .unbound v⟩
  | atom a => exact .inr ⟨_, .atom a⟩
  | int i => exact .inr ⟨_, .int i⟩
  | compound f args =>
    by_cases hf : f = key
    · subst hf
      by_cases hlen : args.length = 1
      · obtain ⟨value, rfl⟩ := List.length_eq_one_iff.mp hlen
        exact .inr ⟨_, .value value⟩
      · exact .inr ⟨_, .arity hlen⟩
    · exact .inl ⟨f, args, rfl, hf⟩

theorem Decides.not_skipped (h : Decides key entry r) : ¬ Skipped key entry := by
  intro hskipped
  obtain ⟨f, args, rfl, hf⟩ := hskipped
  cases h with
  | value => exact hf rfl
  | arity => exact hf rfl

theorem skipped_iff : Skipped key entry ↔ ¬ ∃ r, Decides key entry r := by
  constructor
  · intro h hdecides
    obtain ⟨r, hr⟩ := hdecides
    exact hr.not_skipped h
  · exact (skipped_or_decides key entry).resolve_right

theorem scan_decides (h : Decides key entry r) (walked : List Term × Option TermError) :
    scan key default (entry :: walked.1, walked.2) = r := by
  cases h with
  | value value => exact scan_value value
  | arity hlen => exact scan_arity hlen
  | unbound v => exact scan_var v
  | atom a => exact scan_atom a
  | int i => exact scan_int i

theorem scan_skips {before : List Term} (h : ∀ e ∈ before, Skipped key e) (items : List Term)
    (stop : Option TermError) :
    scan key default (before ++ items, stop) = scan key default (items, stop) := by
  induction before with
  | nil => rfl
  | cons e before ih =>
    obtain ⟨⟨f, args, rfl, hf⟩, hbefore⟩ := List.forall_mem_cons.mp h
    exact (@scan_skip key default (before ++ items, stop) f args hf).trans (ih hbefore)

variable {E : Env} {options last : Term} {entries : List Term}

theorem exists_outcome (key : String) (default : Term) (entries : List Term) (last : Term) :
    ∃ r, Outcome key default entries last r := by
  rcases exists_first_not (Skipped key) entries defaultListLimit with
    hall | ⟨before, entry, behind, rfl, hlen, hbefore, hentry⟩
  · by_cases hlen : entries.length ≤ defaultListLimit
    · rw [List.take_of_length_le hlen] at hall
      by_cases hnil : last = .nil
      · exact ⟨_, .defaulted hlen hall hnil⟩
      · by_cases hvar : ∃ v, last = .var v
        · obtain ⟨v, hv⟩ := hvar
          exact ⟨_, .openTail hlen hall hv⟩
        · exact ⟨_, .noList hlen hall hnil (not_exists.mp hvar)⟩
    · exact ⟨_, .tooLong (Nat.lt_of_not_le hlen) hall⟩
  · obtain ⟨r, hr⟩ := (skipped_or_decides key entry).resolve_left hentry
    exact ⟨r, .decided rfl hlen hbefore hr⟩

theorem result_get_of_decides {before behind : List Term}
    (h : E.Cells options (before ++ entry :: behind) last) (hlen : before.length < defaultListLimit)
    (hbefore : ∀ e ∈ before, Skipped key e) (hr : Decides key entry r) :
    (get key options default E).result = r := by
  obtain ⟨items, stop, hwalk⟩ := h.exists_walk_behind hlen
  rw [result_get, hwalk, scan_skips hbefore]
  exact scan_decides hr (items, stop)

theorem result_get_of_skipped (h : E.Cells options entries last)
    (hlen : entries.length ≤ defaultListLimit) (hall : ∀ e ∈ entries, Skipped key e) :
    (get key options default E).result = scan key default ([], last.tailError?) := by
  rw [result_get, h.walk_of_le hlen, ← List.append_nil entries, scan_skips hall]

theorem Outcome.result_eq (h : Outcome key default entries last r)
    (hcells : E.Cells options entries last) : (get key options default E).result = r := by
  cases h with
  | decided hentries hlen hbefore hr =>
    subst hentries
    exact result_get_of_decides hcells hlen hbefore hr
  | tooLong hlen hall =>
    rw [result_get, hcells.walk_of_lt hlen, ← List.append_nil (entries.take _), scan_skips hall]
    rfl
  | defaulted hlen hall hlast =>
    subst hlast
    exact result_get_of_skipped hcells hlen hall
  | openTail hlen hall hlast =>
    subst hlast
    exact result_get_of_skipped hcells hlen hall
  | noList hlen hall hnil hvar =>
    rw [result_get_of_skipped hcells hlen hall, Term.tailError?_improper hnil hvar]
    rfl

/-- Every list of options is a chain of entries with a last tail, and these tell the result of a
look-up: the first entry that is not passed over decides, if it is among the first 2^20; otherwise
the length and the last tail do. What stands behind the deciding entry, and what is passed over
before it, makes no difference, nor does the default. -/
theorem get_exact (key : String) (options default : Term) (E : Env) :
    defaultListLimit = 2 ^ 20 ∧
      (∀ entry, Skipped key entry ↔ ¬ ∃ r, Decides key entry r) ∧
      (∃ entries last, E.Cells options entries last) ∧
      (∀ entries last, E.Cells options entries last →
        ∀ r, (get key options default E).result = r ↔ Outcome key default entries last r) ∧
      ∀ (F : Env) (options' default' : Term) before behind last before' behind' last' entry,
        E.Cells options (before ++ entry :: behind) last →
        F.Cells options' (before' ++ entry :: behind') last' →
        before.length < defaultListLimit → before'.length < defaultListLimit →
        (∀ e ∈ before, Skipped key e) → (∀ e ∈ before', Skipped key e) → ¬ Skipped key entry →
        (get key options default E).result = (get key options' default' F).result := by
  refine ⟨rfl, fun _ => skipped_iff, E.exists_cells options, ?_, ?_⟩
  · intro entries last hcells r
    constructor
    · rintro rfl
      obtain ⟨r, hr⟩ := exists_outcome key default entries last
      rwa [hr.result_eq hcells]
    · intro hr
      exact hr.result_eq hcells
  · intro F options' default' before behind last before' behind' last' entry hcells hcells' hlen
      hlen' hbefore hbefore' hentry
    obtain ⟨r, hr⟩ := (skipped_or_decides key entry).resolve_left hentry
    rw [result_get_of_decides hcells hlen hbefore hr,
      result_get_of_decides hcells' hlen' hbefore' hr]

/-- The second entry stands behind a binding. It decides for its own key; for another one it is
passed over, and the integer behind it decides. The improper tail is never reached. -/
theorem get_exact_behind_binding :
    let named : Term := .compound "type" [.atom "ed25519"]
    let weight : Term := .compound "weight" [.int 1, .int 2]
    let E : Env := ⟨[(0, named)], trivial, rfl, by decide⟩
    let options : Term := .cons weight (.cons (.var 0) (.cons (.int 7) (.atom "x")))
    E.Cells options [weight, named, .int 7] (.atom "x") ∧
      (get "type" options .nil E).result = .ok (.atom "ed25519") ∧
      (get "encoding" options .nil E).result = .error (.type .compound (.int 7)) ∧
      (get "weight" options .nil E).result = .error (.domain "option" weight []) := by
  intro named weight E options
  have hnamed : E.resolve (.var 0) = named := by
    rw [Env.resolve_of_lookup (s := named) rfl, Env.resolve_compound]
  have hcells : E.Cells options [weight, named, .int 7] (.atom "x") := by
    have hlast : E.Cells (.atom "x") [] (E.resolve (.atom "x")) :=
      .last (by rw [E.resolve_atom]; rfl)
    have h := Env.Cells.cell (E.resolve_cons weight _)
      (.cell (E.resolve_cons (.var 0) _) (.cell (E.resolve_cons (.int 7) _) hlast))
    rwa [hnamed, E.resolve_int, E.resolve_atom, E.resolve_compound] at h
  have hskip : ∀ key, "weight" ≠ key → Skipped key weight := fun key h => ⟨_, _, rfl, h⟩
  have hget : ∀ key r, Outcome key .nil [weight, named, .int 7] (.atom "x") r →
      (get key options .nil E).result = r := fun key r =>
    ((get_exact key options .nil E).2.2.2.1 _ _ hcells r).mpr
  refine ⟨hcells, hget _ _ ?_, hget _ _ ?_, hget _ _ ?_⟩
  · have hsplit : [weight, named, .int 7] = [weight] ++ named :: [.int 7] := rfl
    have hbefore := List.forall_mem_singleton.mpr (hskip "type" (by decide))
    exact .decided hsplit (by decide) hbefore (.value _)
  · have hsplit : [weight, named, .int 7] = [weight, named] ++ .int 7 :: [] := rfl
    have hbefore : ∀ e ∈ [weight, named], Skipped "encoding" e := by
      simpa using ⟨hskip _ (by decide), _, _, rfl, by decide⟩
    exact .decided hsplit (by decide) hbefore (.int 7)
  · have hsplit : [weight, named, .int 7] = [] ++ weight :: [named, .int 7] := rfl
    exact .decided hsplit (by decide) (by simp) (.arity (by decide))

end Signet.Options
