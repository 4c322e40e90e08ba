import Signet.Proofs.Toml.Lines
import Signet.Toml.Computed

/-! # The computed library keeps the laws

What is written is read back line by line: each value in its form, the values up to the first table
as a document of their own, and each table behind its header. -/
namespace Signet.Toml

open Text

theorem entryValues_append (front back : Entries) :
    entryValues (front ++ back) = entryValues front ++ entryValues back := by
  induction front with
  | nil => rfl
  | cons entry front ih => rw [List.cons_append, entryValues, entryValues, ih, List.cons_append]

theorem lookup_eq_none_of_entryValues {entries : Entries} {table : Table} {key : String}
    (h : entryValues entries = table) (hkey : key ∉ table.map Prod.fst) :
    entries.lookup key = none := by
  induction entries generalizing table with
  | nil => rfl
  | cons entry entries ih =>
    subst h
    obtain ⟨key', item⟩ := entry
    rw [entryValues, List.map_cons, List.mem_cons, not_or] at hkey
    have hne : key ≠ key' := hkey.1
    rw [List.lookup, beq_false_of_ne hne]
    exact ih rfl hkey.2

theorem Key.IsBare.not_mem {key : String} (h : IsBare key) {c : Char}
    (hc : isBareChar c = false) : c ∉ key.toList :=
  fun hmem => Bool.false_ne_true (hc.symm.trans (h.2 c hmem))

/-- A value is written in a form that it is read from. -/
theorem exists_spelt_of_write? {value : Value} {form : String} (h : value.write? = some form) :
    ∃ item : Item, item.value = value ∧ item.Spelt form.toList ∧ '\r' ∉ form.toList := by
  cases value with
  | text s =>
    cases h
    refine ⟨.text s, rfl, spelt_text s, fun hmem => ?_⟩
    rcases Quoted.mem_write hmem with h | h
    · exact absurd h (by decide)
    · exact absurd h (by decide)
  | integer n =>
    simp only [Value.write?, Option.ite_none_right_eq_some, Option.some.injEq] at h
    obtain ⟨⟨hpos, hlt⟩, rfl⟩ := h
    lift n to Nat using hpos
    rw [Int.toNat_natCast]
    exact ⟨.integer n, rfl, spelt_nat (by omega),
      fun hmem => absurd (isDigit_of_mem_toString hmem) (by decide)⟩
  | boolean b =>
    cases h
    exact ⟨.boolean b, rfl, spelt_bool b, by cases b <;> decide⟩
  | _ => cases h

namespace Table

theorem HasKeys.tail {e : String × Value} {table : Table} (h : HasKeys (e :: table)) :
    table.HasKeys :=
  ⟨fun e' he' => h.bare e' (List.mem_cons_of_mem _ he'), (List.nodup_cons.mp h.distinct).2⟩

theorem toList_line (key form more : String) :
    (key ++ " = " ++ form ++ "\n" ++ more).toList =
      key.toList ++ ' ' :: '=' :: ' ' :: (form.toList ++ '\n' :: more.toList) := by
  have hequals : " = ".toList = [' ', '=', ' '] := by decide
  have hend : "\n".toList = ['\n'] := by decide
  simp only [String.toList_append, hequals, hend, List.append_assoc, List.cons_append,
    List.nil_append]

theorem toList_section (key lines more : String) :
    ("\n[" ++ key ++ "]\n" ++ lines ++ more).toList =
      '\n' :: '[' :: (key.toList ++ ']' :: '\n' :: (lines.toList ++ more.toList)) := by
  have hopen : "\n[".toList = ['\n', '['] := by decide
  have hclose : "]\n".toList = [']', '\n'] := by decide
  simp only [String.toList_append, hopen, hclose, List.append_assoc, List.cons_append,
    List.nil_append]

/-- The lines of values are read as the pairs that they were written of. -/
theorem exists_pairs_of_lines? {table : Table} {text : String} (hkeys : table.HasKeys)
    (h : lines? table = some text) :
    ∃ entries, entryValues entries = table ∧ Draft.Pairs entries text.toList ∧
      '\r' ∉ text.toList := by
  induction table generalizing text with
  | nil =>
    cases h
    exact ⟨[], rfl, .nil, by simp⟩
  | cons e table ih =>
    obtain ⟨key, value⟩ := e
    simp only [lines?, Option.bind_eq_bind, Option.bind_eq_some_iff] at h
    obtain ⟨form, hform, more, hmore, hpure⟩ := h
    cases hpure
    obtain ⟨item, rfl, hspelt, hreturn⟩ := exists_spelt_of_write? hform
    obtain ⟨entries, rfl, hpairs, hreturn'⟩ := ih hkeys.tail hmore
    have hbare : Key.IsBare key := hkeys.bare _ List.mem_cons_self
    have hnew := lookup_eq_none_of_entryValues rfl (List.nodup_cons.mp hkeys.distinct).1
    refine ⟨(key, item) :: entries, rfl, ?_, ?_⟩
    · rw [toList_line]
      exact .cons hbare hspelt hnew hpairs
    · rw [toList_line]
      simp [hbare.not_mem (show Key.isBareChar '\r' = false by decide), hreturn, hreturn']

/-- Below a draft whose tables can be closed, the sections add their tables to them. -/
theorem exists_leads_of_sections? {table : Table} {text : String} (hproper : table.IsProper)
    (h : sections? table = some text) {d : Draft} {closed : Entries} (hclosed : d.close = some closed)
    (hnew : ∀ e ∈ table, closed.lookup e.1 = none) :
    ∃ d' entries, d.Leads text.toList d' [] ∧ d'.close = some (closed ++ entries) ∧
      entryValues entries = table ∧ '\r' ∉ text.toList := by
  induction table generalizing text d closed with
  | nil =>
    cases h
    exact ⟨d, [], Draft.Leads.refl d _, by rw [hclosed, List.append_nil], rfl, by simp⟩
  | cons e table ih =>
    obtain ⟨key, value⟩ := e
    cases value with
    | table inner =>
      simp only [sections?, Option.bind_eq_bind, Option.bind_eq_some_iff] at h
      obtain ⟨lines, hlines, more, hmore, hpure⟩ := h
      cases hpure
      obtain ⟨entries, hentries, hpairs, hreturn⟩ :=
        exists_pairs_of_lines? (hproper.inner List.mem_cons_self) hlines
      have hbare : Key.IsBare key := hproper.keys.bare _ List.mem_cons_self
      have hfresh : closed.lookup key = none := hnew _ List.mem_cons_self
      have hclose : (⟨closed, entries, some ([], key, false)⟩ : Draft).close =
          some (closed ++ [(key, .table .header entries)]) := by
        simp [Draft.close, Entries.change, Entries.put, hfresh]
      have hrest : ∀ e ∈ table,
          (closed ++ [(key, Item.table .header entries)]).lookup e.1 = none := by
        intro e he
        have hne : e.1 ≠ key := by
          intro heq
          have hmem : e.1 ∈ table.map Prod.fst := List.mem_map_of_mem he
          exact (List.nodup_cons.mp hproper.keys.distinct).1 (heq ▸ hmem)
        rw [List.lookup_append, hnew e (List.mem_cons_of_mem _ he), Option.none_or]
        simp [List.lookup, beq_false_of_ne hne]
      obtain ⟨d', more', hleads, hclose', rfl, hreturn'⟩ := ih
        ⟨hproper.keys.tail, fun he => hproper.inner (List.mem_cons_of_mem _ he)⟩ hmore hclose hrest
      refine ⟨d', (key, .table .header entries) :: more', ?_, ?_, ?_, ?_⟩
      · rw [toList_section]
        refine (Draft.leads_blank _ _).trans ((Draft.leads_header hbare hclosed hfresh _).trans ?_)
        exact (hpairs.leads (fun _ _ => rfl) _).trans hleads
      · rw [hclose', List.append_assoc, List.singleton_append]
      · rw [entryValues, entryValue, Item.value, hentries]
      · rw [toList_section]
        simp [hbare.not_mem (show Key.isBareChar '\r' = false by decide), hreturn, hreturn']
    | _ => cases h

/-- The equation of `write?` for a plain value in front. -/
theorem write?_cons {key : String} {value : Value} (h : value.IsPlain) (table : Table) :
    write? ((key, value) :: table) =
      (do return key ++ " = " ++ (← value.write?) ++ "\n" ++ (← write? table)) := by
  cases value with
  | text _ => rfl
  | integer _ => rfl
  | boolean _ => rfl
  | _ => cases h

theorem write?_cons_of_not_isPlain {key : String} {value : Value} (h : ¬ value.IsPlain)
    (table : Table) : write? ((key, value) :: table) = sections? ((key, value) :: table) := by
  cases value with
  | text _ => exact absurd trivial h
  | integer _ => exact absurd trivial h
  | boolean _ => exact absurd trivial h
  | _ => rfl

/-- What is written are the lines of plain values and then sections. -/
theorem exists_parts_of_write? {table : Table} {text : String} (h : write? table = some text) :
    ∃ front back lines sections, table = front ++ back ∧ lines? front = some lines ∧
      sections? back = some sections ∧ text = lines ++ sections := by
  induction table generalizing text with
  | nil =>
    cases h
    exact ⟨[], [], "", "", rfl, rfl, rfl, rfl⟩
  | cons e table ih =>
    obtain ⟨key, value⟩ := e
    by_cases hplain : value.IsPlain
    · simp only [write?_cons hplain, Option.bind_eq_bind, Option.bind_eq_some_iff] at h
      obtain ⟨form, hform, more, hmore, hpure⟩ := h
      cases hpure
      obtain ⟨front, back, lines, sections, rfl, hlines, hsections, rfl⟩ := ih hmore
      refine ⟨(key, value) :: front, back, key ++ " = " ++ form ++ "\n" ++ lines, sections, rfl,
        ?_, hsections, String.append_assoc.symm⟩
      simp [lines?, hform, hlines]
    · rw [write?_cons_of_not_isPlain hplain] at h
      exact ⟨[], _, "", text, rfl, rfl, h, by simp⟩

theorem write?_append {front back : Table} {a b : String} (hplain : front.IsPlain)
    (hfront : write? front = some a) (hback : write? back = some b) :
    write? (front ++ back) = some (a ++ b) := by
  induction front generalizing a with
  | nil =>
    cases hfront
    simpa using hback
  | cons e front ih =>
    obtain ⟨hvalue, hrest⟩ := List.forall_mem_cons.mp hplain
    simp only [write?_cons hvalue, Option.bind_eq_bind, Option.bind_eq_some_iff] at hfront
    obtain ⟨form, hform, more, hmore, hpure⟩ := hfront
    cases hpure
    rw [List.cons_append, write?_cons hvalue, hform, ih hrest hmore]
    simp [String.append_assoc]

theorem lines?_eq_write? {table : Table} (hplain : table.IsPlain) :
    lines? table = write? table := by
  induction table with
  | nil => rfl
  | cons e table ih =>
    obtain ⟨hvalue, hrest⟩ := List.forall_mem_cons.mp hplain
    rw [write?_cons hvalue, ← ih hrest]
    rfl

theorem head?_ne_mark_of_write? {table : Table} {text : String} (hkeys : table.HasKeys)
    (h : write? table = some text) : text.toList.head? ≠ some '\ufeff' := by
  cases table with
  | nil =>
    cases h
    simp
  | cons e table =>
    obtain ⟨key, value⟩ := e
    by_cases hplain : value.IsPlain
    · simp only [write?_cons hplain, Option.bind_eq_bind, Option.bind_eq_some_iff] at h
      obtain ⟨form, -, more, -, hpure⟩ := h
      cases hpure
      obtain ⟨c, cs, hcs, hc⟩ := Key.IsBare.exists_head (hkeys.bare _ List.mem_cons_self)
      rw [toList_line, hcs]
      simpa using hc '\ufeff' (by decide)
    · rw [write?_cons_of_not_isPlain hplain] at h
      cases value with
      | table inner =>
        simp only [sections?, Option.bind_eq_bind, Option.bind_eq_some_iff] at h
        obtain ⟨lines, -, more, -, hpure⟩ := h
        cases hpure
        rw [toList_section, List.head?_cons]
        decide
      | _ => cases h

theorem IsProper.of_append {front back : Table} (h : IsProper (front ++ back)) :
    front.HasKeys ∧ back.IsProper ∧ ∀ e ∈ back, e.1 ∉ front.map Prod.fst := by
  obtain ⟨⟨hbare, hdistinct⟩, hinner⟩ := h
  rw [List.map_append, List.nodup_append] at hdistinct
  obtain ⟨hfront, hback, hdisjoint⟩ := hdistinct
  refine ⟨⟨fun e he => hbare e (List.mem_append_left _ he), hfront⟩,
    ⟨⟨fun e he => hbare e (List.mem_append_right _ he), hback⟩,
      fun he => hinner (List.mem_append_right _ he)⟩, ?_⟩
  intro e he hmem
  exact hdisjoint e.1 hmem e.1 (List.mem_map_of_mem he) rfl

/-- What is written is read as it was. -/
theorem read?_of_write? {table : Table} {text : String} (hproper : table.IsProper)
    (h : write? table = some text) :
    ∃ entries, read? text = some entries ∧ entryValues entries = table := by
  have hmark := head?_ne_mark_of_write? hproper.keys h
  obtain ⟨front, back, lines, sections, rfl, hlines, hsections, rfl⟩ := exists_parts_of_write? h
  obtain ⟨hfront, hback, hdisjoint⟩ := hproper.of_append
  obtain ⟨entries, hentries, hpairs, hreturn⟩ := exists_pairs_of_lines? hfront hlines
  have hnew : ∀ e ∈ back, entries.lookup e.1 = none := fun e he =>
    lookup_eq_none_of_entryValues hentries (hdisjoint e he)
  obtain ⟨d, more, hleads, hclose, hmore, hreturn'⟩ :=
    exists_leads_of_sections? hback hsections (d := ⟨[], entries, none⟩) rfl hnew
  refine ⟨entries ++ more, ?_, by rw [entryValues_append, hentries, hmore]⟩
  rw [← hclose]
  refine read?_of_leads hmark (by simp [hreturn, hreturn']) ?_
  rw [String.toList_append]
  exact (hpairs.leads (d := Draft.start) (fun _ _ => rfl) _).trans hleads

end Table

namespace Library

theorem write_computed {table : Table} {text : String} :
    computed.write table = .ok text ↔ table.write? = some text := by
  unfold computed
  dsimp only
  cases table.write? <;> simp

theorem keeps_computed {table : Table} {text : String} (hproper : table.IsProper)
    (h : table.write? = some text) : computed.Keeps table := by
  obtain ⟨entries, hread, hentries⟩ := Table.read?_of_write? hproper h
  refine ⟨text, write_computed.mpr h, fun of? a ha => ?_⟩
  simp only [computed, hread, Option.bind_some, hentries, ha]

theorem isProper_singleton {key : String} {value : Value} (hkey : Key.IsBare key)
    (hvalue : value.IsPlain) : Table.IsProper [(key, value)] := by
  refine ⟨⟨by simpa using hkey, by simp⟩, ?_⟩
  intro key' entries h
  obtain ⟨-, rfl⟩ := Prod.mk.inj (List.mem_singleton.mp h)
  exact absurd hvalue id

theorem keepsEntries_computed : computed.KeepsEntries where
  text s hkey := keeps_computed (isProper_singleton hkey trivial) rfl
  boolean b hkey := keeps_computed (isProper_singleton hkey trivial) rfl
  integer {key n} hkey hn := by
    have hwrite : (Value.integer n).write? = some (toString n) := by
      simp only [Value.write?, Option.ite_none_right_eq_some, Int.toNat_natCast]
      exact ⟨by omega, trivial⟩
    have hline : Table.write? [(key, .integer n)] =
        some (key ++ " = " ++ toString n ++ "\n" ++ "") := by
      rw [Table.write?_cons (show (Value.integer n).IsPlain from trivial), hwrite]
      rfl
    exact keeps_computed (isProper_singleton hkey trivial) hline
  append {front back} hproper hplain hfront hback := by
    obtain ⟨a, ha, -⟩ := hfront
    obtain ⟨b, hb, -⟩ := hback
    exact keeps_computed hproper
      (Table.write?_append hplain (write_computed.mp ha) (write_computed.mp hb))
  table {key entries} hproper hplain hentries := by
    obtain ⟨lines, hlines, -⟩ := hentries
    have hwrite : Table.write? [(key, .table entries)] = some ("\n[" ++ key ++ "]\n" ++ lines ++ "") := by
      rw [write_computed, ← Table.lines?_eq_write? hplain] at hlines
      simp [Table.write?, Table.sections?, hlines]
    exact keeps_computed hproper hwrite

end Library

end Signet.Toml
