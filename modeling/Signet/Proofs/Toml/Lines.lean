import Signet.Proofs.Text.Runs
import Signet.Proofs.Toml.Laws
import Signet.Proofs.Toml.Strings

/-! # Documents read back as they were written

A value is read up to the line break behind it, a line up to the next line, and a document, whatever
bound its length gives, to its end. -/
namespace Signet.Toml

open Text

/-! ## Numbers -/

namespace Scalar

theorem digits?_of_all {cs : List Char} (hne : cs ≠ []) (h : ∀ c ∈ cs, c.isDigit = true) :
    digits? Char.isDigit cs = some cs := by
  induction cs with
  | nil => exact absurd rfl hne
  | cons c cs ih =>
    obtain ⟨hc, hcs⟩ := List.forall_mem_cons.mp h
    cases cs with
    | nil => simp [digits?, hc]
    | cons d cs =>
      have hd : d ≠ '_' := by
        rintro rfl
        exact absurd (hcs '_' List.mem_cons_self) (by decide)
      rw [digits?, if_pos hc, ih (by simp) hcs]
      · rfl
      · simp
      · simp [hd]

theorem foldl_eq_ofDigitChars {cs : List Char} (h : ∀ c ∈ cs, c.isDigit = true) (n : Nat) :
    cs.foldl (fun n c => n * 10 + digitValue c) n = Nat.ofDigitChars 10 cs n := by
  induction cs generalizing n with
  | nil => rfl
  | cons c cs ih =>
    obtain ⟨hc, hcs⟩ := List.forall_mem_cons.mp h
    rw [List.foldl_cons, Nat.ofDigitChars, List.foldl_cons, ← Nat.ofDigitChars, ih hcs, digitValue,
      if_pos hc, Nat.mul_comm]
    rfl

theorem decimal?_toDigits (n : Nat) : decimal? (Nat.toDigits 10 n) = some n := by
  have hdigits : ∀ c ∈ Nat.toDigits 10 n, c.isDigit = true := fun c hc =>
    Nat.isDigit_of_mem_toDigits (by decide) (by decide) hc
  have hvalue : ofDigits 10 (Nat.toDigits 10 n) = n := by
    rw [ofDigits, foldl_eq_ofDigitChars hdigits,
      Nat.ofDigitChars_toDigits (by decide) (by decide)]
  have hhead : ¬ ((Nat.toDigits 10 n).head? = some '0' ∧ (Nat.toDigits 10 n).length ≠ 1) := by
    rintro ⟨hzero, hlength⟩
    rcases n.eq_zero_or_pos with rfl | hpos
    · exact hlength rfl
    · exact toDigits_head_ne_zero hpos hzero
  rw [decimal?, digits?_of_all Nat.toDigits_ne_nil hdigits]
  simp [hhead, hvalue]

theorem integer?_toString {n : Nat} (h : n < 0x8000000000000000) :
    integer? (toString n).toList = some (n : Int) := by
  have hdigits : ∀ c ∈ (toString n).toList, c.isDigit = true := fun c => isDigit_of_mem_toString
  have hvalue : decimal? (toString n).toList = some n := by
    rw [Nat.toString_eq_ofList_toDigits, String.toList_ofList]
    exact decimal?_toDigits n
  generalize (toString n).toList = cs at hdigits hvalue
  have hno : ∀ c front rest, c.isDigit = false → cs ≠ front ++ c :: rest := by
    rintro c front rest hc rfl
    exact absurd (hdigits c (by simp)) (by simp [hc])
  have hsign : sign cs = (false, cs) := by
    unfold sign
    split
    · exact absurd rfl (hno '-' [] _ (by decide))
    · exact absurd rfl (hno '+' [] _ (by decide))
    · rfl
  have hrange : -0x8000000000000000 ≤ (n : Int) ∧ (n : Int) < 0x8000000000000000 := by omega
  rw [integer?, hsign]
  · dsimp only
    rw [hvalue, Option.bind_eq_bind, Option.bind_eq_some_iff]
    exact ⟨n, rfl, by rw [if_pos hrange]⟩
  · exact fun rest => hno 'x' ['0'] rest (by decide)
  · exact fun rest => hno 'o' ['0'] rest (by decide)
  · exact fun rest => hno 'b' ['0'] rest (by decide)

theorem read?_nat {n : Nat} (h : n < 0x8000000000000000) {rest : List Char}
    (hrest : ∀ c ∈ rest.head?, isTokenChar c = false) :
    read? ((toString n).toList ++ rest) = some (.integer n, rest) := by
  have htoken : ((toString n).toList ++ rest).takeWhile isTokenChar = (toString n).toList := by
    refine takeWhile_append_stop (fun c hc => ?_) hrest
    simp [isTokenChar, Char.isAlphanum, isDigit_of_mem_toString hc]
  have hword : ∀ c cs, c.isDigit = false → (toString n).toList ≠ c :: cs := by
    intro c cs hc he
    have hdigit : c.isDigit = true := isDigit_of_mem_toString (n := n) (he ▸ List.mem_cons_self)
    exact Bool.false_ne_true (hc.symm.trans hdigit)
  unfold read?
  dsimp only
  rw [htoken, if_neg (hword 't' _ (by decide)), if_neg (hword 'f' _ (by decide)),
    integer?_toString h, List.drop_left]

theorem read?_bool (b : Bool) {rest : List Char} (hrest : ∀ c ∈ rest.head?, isTokenChar c = false) :
    read? ((toString b).toList ++ rest) = some (.boolean b, rest) := by
  have hchars : ∀ c ∈ (toString b).toList, isTokenChar c = true :=
    List.all_eq_true.mp (by cases b <;> decide)
  have htoken := takeWhile_append_stop hchars hrest
  unfold read?
  dsimp only
  rw [htoken, List.drop_left]
  cases b with
  | false => exact (if_neg (by decide)).trans (if_pos rfl)
  | true => exact if_pos rfl

end Scalar

/-! ## Values -/

theorem skipSpace_of_head {cs : List Char} (h : ∀ c ∈ cs.head?, c ≠ ' ' ∧ c ≠ '\t') :
    skipSpace cs = cs := by
  cases cs with
  | nil => rfl
  | cons c cs => exact List.dropWhile_cons_of_neg (by simp [h c rfl])

/-- The text is read as the item if a line break follows. It does not begin with a blank, which
would be skipped. -/
structure Item.Spelt (item : Item) (text : List Char) : Prop where
  starts : ∀ rest, skipSpace (text ++ '\n' :: rest) = text ++ '\n' :: rest
  reads : ∀ rest, item? maxDepth (text ++ '\n' :: rest) = some (item, '\n' :: rest)

theorem spelt_of_leaf {item : Item} {c : Char} {cs : List Char}
    (hblank : c ≠ ' ' ∧ c ≠ '\t') (hopen : c ≠ '[' ∧ c ≠ '{')
    (h : ∀ rest, item?.leaf (c :: cs ++ '\n' :: rest) = some (item, '\n' :: rest)) :
    item.Spelt (c :: cs) := by
  refine ⟨fun rest => skipSpace_of_head (by simpa using hblank), fun rest => ?_⟩
  rw [← h rest, List.cons_append, maxDepth, item?]
  · simp [hopen.1]
  · simp [hopen.2]

theorem spelt_scalar {item : Item} {c : Char} {cs : List Char} (hc : c.isAlphanum = true)
    (h : ∀ rest, Scalar.read? (c :: cs ++ '\n' :: rest) = some (item, '\n' :: rest)) :
    item.Spelt (c :: cs) := by
  have hne : ∀ d, d.isAlphanum = false → c ≠ d := by
    rintro d hd rfl
    exact Bool.false_ne_true (hd.symm.trans hc)
  refine spelt_of_leaf ⟨hne _ (by decide), hne _ (by decide)⟩
    ⟨hne _ (by decide), hne _ (by decide)⟩ fun rest => ?_
  rw [← h rest, List.cons_append, item?.leaf]
  · simp [hne '"' (by decide)]
  · simp [hne '\'' (by decide)]

theorem spelt_nat {n : Nat} (h : n < 0x8000000000000000) :
    (Item.integer n).Spelt (toString n).toList := by
  have hread : ∀ rest, Scalar.read? ((toString n).toList ++ '\n' :: rest) =
      some (.integer n, '\n' :: rest) := fun rest => Scalar.read?_nat h (by simp; decide)
  obtain ⟨c, cs, hcs, hdigits⟩ := exists_digits n
  rw [hcs] at hread ⊢
  exact spelt_scalar (by simp [Char.isAlphanum, hdigits c List.mem_cons_self]) hread

theorem spelt_bool (b : Bool) : (Item.boolean b).Spelt (toString b).toList := by
  have hread : ∀ rest, Scalar.read? ((toString b).toList ++ '\n' :: rest) =
      some (.boolean b, '\n' :: rest) := fun rest => Scalar.read?_bool b (by simp; decide)
  cases b with
  | false => exact spelt_scalar (by decide) hread
  | true => exact spelt_scalar (by decide) hread

theorem spelt_text (text : String) : (Item.text text).Spelt (Quoted.write text).toList := by
  have hread : ∀ rest, (Quoted.read? ((Quoted.write text).toList ++ '\n' :: rest)).map
      (fun p => (Item.text p.1, p.2)) = some (.text text, '\n' :: rest) := by
    intro rest
    rw [Quoted.read?_write text (by simp)]
    rfl
  obtain ⟨c, cs, hcs, hc⟩ := Quoted.write_eq_cons text
  rw [hcs] at hread ⊢
  rcases hc with rfl | rfl
  · exact spelt_of_leaf (by decide) (by decide) hread
  · exact spelt_of_leaf (by decide) (by decide) hread

/-! ## Keys -/

namespace Key

theorem IsBare.exists_head {key : String} (h : IsBare key) :
    ∃ c cs, key.toList = c :: cs ∧ ∀ d, isBareChar d = false → c ≠ d := by
  obtain ⟨c, cs, hcs⟩ := List.exists_cons_of_ne_nil h.1
  refine ⟨c, cs, hcs, ?_⟩
  rintro d hd rfl
  exact Bool.false_ne_true (hd.symm.trans (h.2 c (hcs ▸ List.mem_cons_self)))

theorem part?_bare {key : String} (h : IsBare key) {rest : List Char}
    (hrest : ∀ c ∈ rest.head?, isBareChar c = false) :
    part? (key.toList ++ rest) = some (key, rest) := by
  have hbare := takeWhile_append_stop h.2 hrest
  obtain ⟨c, cs, hcs, hc⟩ := h.exists_head
  rw [hcs, List.cons_append, part?, ← List.cons_append, ← hcs, hbare, List.drop_left,
    String.ofList_toList, if_neg (by simpa using h.1)]
  · simp [hc '"' (by decide)]
  · simp [hc '\'' (by decide)]

theorem read?_bare {key : String} (h : IsBare key) {rest : List Char}
    (hrest : ∀ c ∈ rest.head?, isBareChar c = false) (hdot : ∀ more, skipSpace rest ≠ '.' :: more) :
    read? (key.toList ++ rest) = some (([], key), skipSpace rest) := by
  have hstart : skipSpace (key.toList ++ rest) = key.toList ++ rest := by
    obtain ⟨c, cs, hcs, hc⟩ := h.exists_head
    exact skipSpace_of_head (by simp [hcs, hc ' ' (by decide), hc '\t' (by decide)])
  have hparts : parts? (maxDepth - 1) (key.toList ++ rest) = some ([key], skipSpace rest) := by
    rw [maxDepth, parts?, hstart, part?_bare h hrest]
    dsimp only [Option.bind_eq_bind, Option.bind_some]
    split
    · exact absurd ‹_› (hdot _)
    · rfl
  rw [read?, hparts]
  rfl

end Key

/-! ## Lines -/

namespace Draft

theorem expect_self (c : Char) (rest : List Char) : expect c (c :: rest) = some rest := if_pos rfl

theorem endLine?_newline (rest : List Char) : endLine? ('\n' :: rest) = some rest := rfl

theorem insert_new {entries : Entries} {key : String} (h : entries.lookup key = none)
    (item : Item) : entries.insert [] key item = some (entries ++ [(key, item)]) := by
  rw [Entries.insert, h]
  rfl

theorem line?_pair {d : Draft} {key : String} {item : Item} {text : List Char}
    (hkey : Key.IsBare key) (hitem : item.Spelt text) (hnew : d.current.lookup key = none) (rest : List Char) :
    d.line? (key.toList ++ ' ' :: '=' :: ' ' :: (text ++ '\n' :: rest)) =
      some (⟨d.closed, d.current ++ [(key, item)], d.header⟩, rest) := by
  have hread : Key.read? (key.toList ++ ' ' :: '=' :: ' ' :: (text ++ '\n' :: rest)) =
      some (([], key), '=' :: ' ' :: (text ++ '\n' :: rest)) :=
    Key.read?_bare hkey (by simp; decide) fun _ h => absurd (List.cons.inj h).1 (by decide)
  have hvalue : item? maxDepth (skipSpace (' ' :: (text ++ '\n' :: rest))) =
      some (item, '\n' :: rest) := by
    rw [← hitem.reads rest]
    exact congrArg (item? maxDepth) (hitem.starts rest)
  obtain ⟨c, cs, hcs, hc⟩ := hkey.exists_head
  rw [hcs, List.cons_append] at hread ⊢
  rw [line?, hread]
  · simp only [Option.bind_eq_bind, Option.bind_some, expect_self, hvalue, insert_new hnew,
      endLine?_newline]
  · simp [hc '[' (by decide)]
  · simp [hc '[' (by decide)]

theorem line?_header {d : Draft} {key : String} {closed : Entries} (hkey : Key.IsBare key)
    (hclose : d.close = some closed) (hnew : closed.lookup key = none) (rest : List Char) :
    d.line? ('[' :: (key.toList ++ ']' :: '\n' :: rest)) =
      some (⟨closed, [], some ([], key, false)⟩, rest) := by
  have hread : Key.read? (key.toList ++ ']' :: '\n' :: rest) =
      some (([], key), ']' :: '\n' :: rest) :=
    Key.read?_bare hkey (by simp; decide) fun _ h => absurd (List.cons.inj h).1 (by decide)
  have hopen : d.openTable [] key = some ⟨closed, [], some ([], key, false)⟩ := by
    rw [openTable, hclose, Option.bind_eq_bind, Option.bind_some, Entries.find?, hnew]
    rfl
  obtain ⟨c, cs, hcs, hc⟩ := hkey.exists_head
  rw [hcs, List.cons_append] at hread ⊢
  rw [line?, hread]
  · simp only [Option.bind_eq_bind, Option.bind_some, expect_self, hopen, endLine?_newline]
  · simp [hc '[' (by decide)]

/-! ## Documents -/

/-- Reading lines leads from one draft and text to another. A round uses up at least one character,
so that a bound by the length of the text is never reached. -/
def Leads (d : Draft) (cs : List Char) (d' : Draft) (rest : List Char) : Prop :=
  ∃ n, n + rest.length ≤ cs.length ∧ ∀ bound, d.lines? (n + bound) cs = d'.lines? bound rest

theorem Leads.refl (d : Draft) (cs : List Char) : d.Leads cs d cs := ⟨0, by simp, by simp⟩

theorem Leads.trans {d d' d'' : Draft} {cs cs' cs'' : List Char} (h : d.Leads cs d' cs')
    (h' : d'.Leads cs' d'' cs'') : d.Leads cs d'' cs'' := by
  obtain ⟨n, hn, hlines⟩ := h
  obtain ⟨m, hm, hmore⟩ := h'
  exact ⟨n + m, by omega, fun bound => by rw [Nat.add_assoc, hlines, hmore]⟩

theorem leads_blank (d : Draft) (rest : List Char) : d.Leads ('\n' :: rest) d rest :=
  ⟨1, by simp [Nat.add_comm], fun bound => by rw [Nat.add_comm]; rfl⟩

theorem leads_line {d d' : Draft} {c : Char} {cs rest : List Char}
    (hc : c ≠ ' ' ∧ c ≠ '\t' ∧ c ≠ '\n' ∧ c ≠ '#') (h : d.line? (c :: cs) = some (d', rest))
    (hlength : rest.length ≤ cs.length) : d.Leads (c :: cs) d' rest := by
  obtain ⟨hspace, htab, hnewline, hcomment⟩ := hc
  have hstart : skipSpace (c :: cs) = c :: cs := skipSpace_of_head (by simp [hspace, htab])
  refine ⟨1, by simp; omega, fun bound => ?_⟩
  rw [Nat.add_comm, lines?, hstart]
  split
  · rename_i he
    cases he
  · rename_i he
    exact absurd (List.cons.inj he).1 hnewline
  · rename_i he
    exact absurd (List.cons.inj he).1 hcomment
  · rw [h]
    rfl

/-- The lines of a table: bare keys, none of them twice, and values. -/
inductive Pairs : Entries → List Char → Prop
  | nil : Pairs [] []
  | cons {key : String} {item : Item} {text : List Char} {entries : Entries} {lines : List Char} :
      Key.IsBare key → item.Spelt text → entries.lookup key = none → Pairs entries lines →
      Pairs ((key, item) :: entries)
        (key.toList ++ ' ' :: '=' :: ' ' :: (text ++ '\n' :: lines))

theorem Pairs.leads {entries : Entries} {lines : List Char} (h : Pairs entries lines) {d : Draft}
    (hnew : ∀ e ∈ entries, d.current.lookup e.1 = none) (rest : List Char) :
    d.Leads (lines ++ rest) ⟨d.closed, d.current ++ entries, d.header⟩ rest := by
  induction h generalizing d with
  | nil =>
    rw [List.append_nil]
    exact Leads.refl d rest
  | cons hkey hitem hother _ ih =>
    rename_i key item text entries lines _
    have hline := line?_pair hkey hitem (hnew _ List.mem_cons_self) (lines ++ rest)
    have hnext : ∀ e ∈ entries, (d.current ++ [(key, item)]).lookup e.1 = none := by
      intro e he
      have hne : key ≠ e.1 := by simpa using List.lookup_eq_none_iff.mp hother e he
      rw [List.lookup_append, hnew e (List.mem_cons_of_mem _ he), Option.none_or]
      exact List.lookup_eq_none_iff.mpr (by simpa using hne.symm)
    have hmore := ih (d := ⟨d.closed, d.current ++ [(key, item)], d.header⟩) hnext
    rw [List.append_assoc, List.singleton_append] at hmore
    obtain ⟨c, cs, hcs, hc⟩ := hkey.exists_head
    refine Leads.trans ?_ hmore
    simp only [List.append_assoc, List.cons_append]
    rw [hcs, List.cons_append] at hline ⊢
    refine leads_line
      ⟨hc _ (by decide), hc _ (by decide), hc _ (by decide), hc _ (by decide)⟩ hline ?_
    simp only [List.length_append, List.length_cons]
    omega

theorem leads_header {d : Draft} {key : String} {closed : Entries} (hkey : Key.IsBare key)
    (hclose : d.close = some closed) (hnew : closed.lookup key = none) (rest : List Char) :
    d.Leads ('[' :: (key.toList ++ ']' :: '\n' :: rest)) ⟨closed, [], some ([], key, false)⟩ rest :=
  leads_line (by decide) (line?_header hkey hclose hnew rest)
    (by simp only [List.length_append, List.length_cons]; omega)

end Draft

theorem unixLines_of_not_mem {cs : List Char} (h : '\r' ∉ cs) : Quoted.unixLines cs = cs := by
  induction cs with
  | nil => rfl
  | cons c cs ih =>
    rw [List.mem_cons, not_or] at h
    rw [Quoted.unixLines, ih h.2]
    rintro rest rfl
    exact absurd rfl h.1

/-- A document whose lines lead to its end is read as the tables they make. -/
theorem read?_of_leads {text : String} {d : Draft} (hmark : text.toList.head? ≠ some '\ufeff')
    (hreturn : '\r' ∉ text.toList) (h : Draft.start.Leads text.toList d []) :
    read? text = d.close := by
  obtain ⟨n, hn, hlines⟩ := h
  have hdraft : Draft.start.lines? (text.toList.length + 1) text.toList = some d := by
    have hbound : text.toList.length + 1 = n + (text.toList.length - n + 1) := by
      simp only [List.length_nil] at hn
      omega
    rw [hbound, hlines]
    rfl
  unfold read?
  split
  · rename_i he
    exact absurd (by rw [he]; rfl) hmark
  · dsimp only
    rw [unixLines_of_not_mem hreturn, hdraft]
    rfl

end Signet.Toml
