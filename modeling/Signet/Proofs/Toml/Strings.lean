import Signet.Proofs.Toml.Escapes

/-! # Strings read back as they were written

Whatever form the writer chooses, the reader of that form gives the text back and stops right behind
it. -/
namespace Signet.Toml.Quoted

/-! ## Strings on several lines

At a quote the reader looks ahead: three quotes in a row end the string, and up to two more in front
of them belong to its text. So what matters is how many quotes stand in a row before anything else. -/

/-- The closing quotes and what stands behind them. -/
def closing (quote : Char) (rest : List Char) : List Char := List.replicate 3 quote ++ rest

/-- The body begins with a run of quotes that ends before the third, counting `n` in front. -/
def ShortRun (quote : Char) (n : Nat) (body : List Char) : Prop :=
  ∃ m tail, body = List.replicate m quote ++ tail ∧ n + m ≤ 2 ∧ ∀ c ∈ tail.head?, c ≠ quote

theorem ShortRun.cons {quote : Char} {n : Nat} {body : List Char}
    (h : ShortRun quote (n + 1) body) : ShortRun quote n (quote :: body) := by
  obtain ⟨m, tail, rfl, hm, htail⟩ := h
  exact ⟨m + 1, tail, rfl, by omega, htail⟩

theorem shortRun_of_ne {quote : Char} {n : Nat} {body : List Char} (hn : n ≤ 2)
    (h : ∀ c ∈ body.head?, c ≠ quote) : ShortRun quote n body := ⟨0, body, rfl, hn, h⟩

theorem leading_replicate {quote : Char} {m : Nat} {rest : List Char} (hm : m ≤ 5)
    (h : ∀ c ∈ rest.head?, c ≠ quote) :
    leading quote (List.replicate m quote ++ rest) = (m, rest) := by
  have hrest : (rest.take (5 - m)).takeWhile (· == quote) = [] := by
    cases rest with
    | nil => simp
    | cons c rest =>
      cases 5 - m with
      | zero => rfl
      | succ k => exact List.takeWhile_cons_of_neg (by simpa using h c rfl)
  have hrun : ((List.replicate m quote ++ rest).take 5).takeWhile (· == quote) =
      List.replicate m quote := by
    rw [List.take_append, List.length_replicate, List.take_replicate, min_eq_right hm,
      List.takeWhile_append_of_pos (by simp), hrest, List.append_nil]
  simp [leading, hrun]

/-- What a reader makes of a quote. -/
def Looks (quote : Char) (read : List Char → Option (List Char × List Char)) : Prop :=
  ∀ cs, read (quote :: cs) =
    if 3 ≤ (leading quote (quote :: cs)).1 then
      some (List.replicate ((leading quote (quote :: cs)).1 - 3) quote,
        (leading quote (quote :: cs)).2)
    else push quote (read cs)

section Looks

variable {quote : Char} {read : List Char → Option (List Char × List Char)} {rest : List Char}
  (hread : Looks quote read) (hrest : ∀ c ∈ rest.head?, c ≠ quote)
include hread hrest

theorem Looks.read_closing {m : Nat} (hm : m ≤ 2) :
    read (List.replicate m quote ++ closing quote rest) = some (List.replicate m quote, rest) := by
  have hrun : List.replicate m quote ++ closing quote rest =
      quote :: (List.replicate (m + 2) quote ++ rest) := by
    rw [closing, ← List.append_assoc, List.replicate_append_replicate, List.replicate_succ]
    rfl
  have hleading : leading quote (quote :: (List.replicate (m + 2) quote ++ rest)) = (m + 3, rest) :=
    leading_replicate (m := m + 3) (by omega) hrest
  rw [hrun, hread, hleading, if_pos (by omega)]
  rfl

/-- A quote in the text ends the string with all that is left of the text, or it is read alone. -/
theorem Looks.read_quote {n : Nat} {body : List Char} (h : ShortRun quote n (quote :: body)) :
    (∃ m, quote :: body = List.replicate m quote ∧
      read (quote :: body ++ closing quote rest) = some (List.replicate m quote, rest)) ∨
    read (quote :: body ++ closing quote rest) = push quote (read (body ++ closing quote rest)) := by
  obtain ⟨m, tail, hbody, hm, htail⟩ := h
  cases tail with
  | nil =>
    rw [List.append_nil] at hbody
    exact .inl ⟨m, hbody, by rw [hbody]; exact hread.read_closing hrest (by omega)⟩
  | cons c tail =>
    have hleading : leading quote (quote :: body ++ closing quote rest) =
        (m, c :: tail ++ closing quote rest) := by
      rw [hbody, List.append_assoc]
      exact leading_replicate (by omega) htail
    right
    rw [List.cons_append] at hleading ⊢
    rw [hread, hleading, if_neg (by omega)]

end Looks

theorem shortRun_of_longestRun {quote : Char} {n : Nat} {body : List Char}
    (h : longestRun quote n body ≤ 2) : ShortRun quote n body := by
  induction body generalizing n with
  | nil => exact shortRun_of_ne h (by simp)
  | cons c body ih =>
    rw [longestRun] at h
    split at h
    · rename_i hc
      subst hc
      exact (ih h).cons
    · rename_i hc
      exact shortRun_of_ne (by omega) (by simpa using hc)

theorem looks_literalLines : Looks '\'' literalLines := by
  intro cs
  rw [literalLines]
  simp

theorem literalLines_written {cs rest : List Char} (hrest : ∀ c ∈ rest.head?, c ≠ '\'')
    (hplain : ∀ c ∈ cs, (isPlain c || c == '\n') = true) {n : Nat} (h : longestRun '\'' n cs ≤ 2) :
    literalLines (cs ++ closing '\'' rest) = some (cs, rest) := by
  induction cs generalizing n with
  | nil => exact looks_literalLines.read_closing hrest (m := 0) (by omega)
  | cons c cs ih =>
    obtain ⟨hc, hcs⟩ := List.forall_mem_cons.mp hplain
    have hrun := shortRun_of_longestRun h
    rw [longestRun] at h
    split at h
    · rename_i hquote
      subst hquote
      rcases looks_literalLines.read_quote hrest hrun with ⟨m, hm, hread⟩ | hread
      · rw [hread, hm]
      · rw [hread, ih hcs h, push_some]
    · rename_i hquote
      rw [List.cons_append, literalLines, if_neg hquote, if_pos hc,
        ih hcs (le_of_max_le_right h), push_some]

theorem Escaped.exists_head {c : Char} {xs : List Char} (h : Escaped c xs) :
    ∃ d more, xs = d :: more ∧ d ≠ '"' := by
  cases h with
  | plain _ hquote _ => exact ⟨c, [], rfl, hquote⟩
  | escape _ _ _ _ => exact ⟨'\\', _, rfl, by decide⟩

theorem shortRun_escapeLines {n : Nat} (hn : n ≤ 2) (cs : List Char) :
    ShortRun '"' n (escapeLines n cs) := by
  induction cs generalizing n with
  | nil => exact shortRun_of_ne hn (by simp [escapeLines])
  | cons c cs ih =>
    rw [escapeLines]
    split
    · rename_i hc
      split
      · rename_i hlt
        rw [hc]
        exact (ih (by omega)).cons
      · exact shortRun_of_ne hn (by simp)
    · rename_i hc
      refine shortRun_of_ne hn ?_
      split
      · simp_all
      · obtain ⟨d, more, he, hd⟩ := (escaped_escape c).exists_head
        simpa [he] using hd

/-- What is written as a run of quotes is that run. -/
theorem eq_of_escapeLines_eq_replicate {n m : Nat} {cs : List Char}
    (h : escapeLines n cs = List.replicate m '"') : cs = List.replicate m '"' := by
  induction cs generalizing n m with
  | nil => exact h
  | cons c cs ih =>
    have hhead : ∀ d ∈ (escapeLines n (c :: cs)).head?, d = '"' := by
      intro d hd
      rw [h] at hd
      exact List.eq_of_mem_replicate (List.mem_of_mem_head? hd)
    rw [escapeLines] at h hhead
    split at h
    · rename_i hc
      rw [if_pos hc] at hhead
      split at h
      · cases m with
        | zero => cases h
        | succ m =>
          rw [List.replicate_succ, List.cons.injEq] at h ⊢
          exact ⟨hc, ih h.2⟩
      · rename_i hge
        rw [if_neg hge] at hhead
        exact absurd (hhead '\\' rfl) (by decide)
    · rename_i hc
      rw [if_neg hc] at hhead
      split at hhead
      · exact absurd (hhead c rfl) hc
      · obtain ⟨d, more, he, hd⟩ := (escaped_escape c).exists_head
        exact absurd (hhead d (by rw [he]; rfl)) hd

theorem looks_basicLines : Looks '"' basicLines := by
  intro cs
  rw [basicLines]
  simp

theorem Escaped.basicLines_append {c : Char} {xs : List Char} (h : Escaped c xs)
    (tail : List Char) : basicLines (xs ++ tail) = push c (basicLines tail) := by
  cases h with
  | plain hplain hquote hslash =>
    rw [List.singleton_append, basicLines, if_neg hquote, if_neg hslash, if_pos (by simp [hplain])]
  | escape hspace htab hplain hread =>
    rename_i d more
    have hline : d ≠ '\n' := ne_newline_of_isPlain (hplain d List.mem_cons_self)
    have hcontinue : continueLine? (d :: (more ++ tail)) = none := by
      unfold continueLine?
      rw [List.dropWhile_cons_of_neg (by simp [hspace, htab])]
      split
      · rename_i behind he
        exact absurd (List.cons.inj he).1 hline
      · rfl
    rw [List.cons_append, List.cons_append, basicLines, if_neg (by decide), if_pos rfl]
    split
    · rename_i behind he
      rw [hcontinue] at he
      cases he
    · split
      · rename_i e behind he
        rw [hread] at he
        cases he
        rfl
      · rename_i he
        rw [hread] at he
        cases he

theorem basicLines_written {cs rest : List Char} (hrest : ∀ c ∈ rest.head?, c ≠ '"') {n : Nat}
    (hn : n ≤ 2) : basicLines (escapeLines n cs ++ closing '"' rest) = some (cs, rest) := by
  induction cs generalizing n with
  | nil => exact looks_basicLines.read_closing hrest (m := 0) (by omega)
  | cons c cs ih =>
    have hrun := shortRun_escapeLines hn (c :: cs)
    have hruns : ∀ m, escapeLines n (c :: cs) = List.replicate m '"' →
        c :: cs = List.replicate m '"' := fun _ => eq_of_escapeLines_eq_replicate
    rw [escapeLines] at hrun hruns ⊢
    split
    · rename_i hc
      subst hc
      rw [if_pos rfl] at hrun hruns
      split
      · rename_i hlt
        rw [if_pos hlt] at hrun hruns
        rcases looks_basicLines.read_quote hrest hrun with ⟨m, hm, hread⟩ | hread
        · rw [hread, hruns m hm]
        · rw [hread, ih (by omega), push_some]
      · have hquote : Escaped '"' ['\\', '"'] := escaped_escape '"'
        have hread := hquote.basicLines_append (escapeLines 0 cs ++ closing '"' rest)
        rw [ih (by omega), push_some] at hread
        exact hread
    · rename_i hc
      rw [List.append_assoc]
      split
      · rename_i hline
        rw [List.singleton_append, basicLines, if_neg hc, if_neg (by simp [hline]),
          if_pos (by simp [hline]), ih (by omega), push_some]
      · rw [(escaped_escape c).basicLines_append, ih (by omega), push_some]

/-! ## The forms -/

theorem le_longestRun (quote : Char) (n : Nat) (cs : List Char) : n ≤ longestRun quote n cs := by
  induction cs generalizing n with
  | nil => exact Nat.le_refl n
  | cons c cs ih =>
    rw [longestRun]
    split
    · exact Nat.le_of_succ_le (ih (n + 1))
    · exact le_max_left _ _

theorem longestRun_pos {quote : Char} {n : Nat} {cs : List Char} (h : quote ∈ cs) :
    0 < longestRun quote n cs := by
  induction cs generalizing n with
  | nil => cases h
  | cons c cs ih =>
    rw [longestRun]
    split
    · exact Nat.lt_of_lt_of_le n.succ_pos (le_longestRun quote (n + 1) cs)
    · rename_i hc
      exact lt_max_of_lt_right (ih (List.mem_of_ne_of_mem (Ne.symm hc) h))

theorem form_eq_literal {cs : List Char} (h : form cs = .literal) :
    ∀ c ∈ cs, isPlain c = true ∧ c ≠ '\'' := by
  unfold form at h
  dsimp only at h
  split at h
  · cases h
  split at h
  · rename_i hcond
    simp only [Bool.and_eq_true, Bool.not_eq_true', List.any_eq_false, beq_iff_eq,
      List.contains_eq_mem, decide_eq_false_iff_not, bne_iff_ne, not_and, not_not] at hcond
    obtain ⟨⟨hcontrols, hquotes⟩, hline⟩ := hcond
    intro c hc
    refine ⟨?_, ?_⟩
    · by_contra hplain
      exact hline (hcontrols c hc (Bool.eq_false_iff.mpr hplain) ▸ hc)
    · rintro rfl
      exact absurd hquotes (longestRun_pos hc).ne'
  split at h
  · cases h
  split at h
  · cases h
  split at h <;> cases h

theorem form_eq_literalLines {cs : List Char} (h : form cs = .literalLines) :
    (∀ c ∈ cs, (isPlain c || c == '\n') = true) ∧ longestRun '\'' 0 cs ≤ 2 := by
  unfold form at h
  dsimp only at h
  split at h
  · cases h
  split at h
  · cases h
  split at h
  · cases h
  split at h
  · rename_i hcond
    simp only [Bool.and_eq_true, Bool.not_eq_true', List.any_eq_false, decide_eq_true_eq, bne_iff_ne,
      not_and, not_not] at hcond
    refine ⟨?_, hcond.2⟩
    intro c hc
    cases hplain : isPlain c with
    | true => rfl
    | false => simpa using hcond.1 c hc hplain
  split at h <;> cases h

theorem read?_of_basic {cs text rest : List Char} (h : ∀ more, cs ≠ '"' :: '"' :: more)
    (hread : basic cs = some (text, rest)) :
    read? ('"' :: cs) = some (String.ofList text, rest) := by
  have hbody : read? ('"' :: cs) = (basic cs).map fun p => (String.ofList p.1, p.2) := by
    unfold read?
    split
    · rename_i more he
      exact absurd (List.cons.inj he).2 (h more)
    · rename_i he
      rw [(List.cons.inj he).2]
    · rename_i he
      exact absurd (List.cons.inj he).1 (by decide)
    · rename_i he
      exact absurd (List.cons.inj he).1 (by decide)
    · rename_i he _ _
      exact absurd rfl (he cs)
  rw [hbody, hread]
  rfl

theorem read?_of_literal {cs text rest : List Char} (h : ∀ more, cs ≠ '\'' :: '\'' :: more)
    (hread : literal cs = some (text, rest)) :
    read? ('\'' :: cs) = some (String.ofList text, rest) := by
  have hbody : read? ('\'' :: cs) = (literal cs).map fun p => (String.ofList p.1, p.2) := by
    unfold read?
    split
    · rename_i he
      exact absurd (List.cons.inj he).1 (by decide)
    · rename_i he
      exact absurd (List.cons.inj he).1 (by decide)
    · rename_i he
      exact absurd (List.cons.inj he).2 (h _)
    · rename_i he
      rw [(List.cons.inj he).2]
    · rename_i he
      exact absurd rfl (he cs)
  rw [hbody, hread]
  rfl

theorem mem_escapeLines {n : Nat} {cs : List Char} {d : Char} (h : d ∈ escapeLines n cs) :
    isPlain d = true ∨ d = '\n' ∧ '\n' ∈ cs := by
  induction cs generalizing n with
  | nil => cases h
  | cons c cs ih =>
    have hrest : ∀ {k : Nat}, d ∈ escapeLines k cs →
        isPlain d = true ∨ d = '\n' ∧ '\n' ∈ c :: cs := by
      intro k hd
      exact (ih hd).imp_right fun h => ⟨h.1, List.mem_cons_of_mem c h.2⟩
    rw [escapeLines] at h
    split at h
    · rename_i hc
      subst hc
      split at h
      · rcases List.mem_cons.mp h with rfl | hd
        · exact .inl (by decide)
        · exact hrest hd
      · rcases List.mem_cons.mp h with rfl | h
        · exact .inl (by decide)
        · rcases List.mem_cons.mp h with rfl | hd
          · exact .inl (by decide)
          · exact hrest hd
    · rcases List.mem_append.mp h with hd | hd
      · split at hd
        · rename_i hc
          rw [List.mem_singleton, hc] at hd
          exact .inr ⟨hd, hc ▸ List.mem_cons_self⟩
        · exact .inl (isPlain_of_mem_escape hd)
      · exact hrest hd

/-- What opens a string on several lines: a line break, if the text has one. -/
def opening (text : List Char) : List Char := if text.contains '\n' then ['\n'] else []

theorem opened_opening {text body : List Char}
    (h : '\n' ∉ text → ∀ c ∈ body.head?, c ≠ '\n') : opened (opening text ++ body) = body := by
  unfold opening
  split
  · rfl
  · rename_i hline
    rw [List.contains_iff_mem] at hline
    rw [List.nil_append]
    unfold opened
    split
    · exact absurd rfl (h hline '\n' rfl)
    · rfl

theorem opened_basicLines {text rest : List Char} :
    opened (opening text ++ (escapeLines 0 text ++ closing '"' rest)) =
      escapeLines 0 text ++ closing '"' rest := by
  refine opened_opening ?_
  rintro hline c hc rfl
  rw [List.head?_append] at hc
  cases hbody : (escapeLines 0 text).head? with
  | none =>
    rw [hbody] at hc
    exact absurd hc (by simp [closing, List.replicate])
  | some d =>
    rw [hbody] at hc
    cases hc
    rcases mem_escapeLines (List.mem_of_mem_head? hbody) with hplain | ⟨-, hmem⟩
    · exact ne_newline_of_isPlain hplain rfl
    · exact hline hmem

theorem opened_literalLines {text rest : List Char} :
    opened (opening text ++ (text ++ closing '\'' rest)) = text ++ closing '\'' rest := by
  refine opened_opening ?_
  rintro hline c hc rfl
  rw [List.head?_append] at hc
  cases text with
  | nil => exact absurd hc (by simp [closing, List.replicate])
  | cons d text =>
    cases hc
    exact hline List.mem_cons_self

theorem read?_write (text : String) {rest : List Char}
    (hrest : ∀ c ∈ rest.head?, c ≠ '"' ∧ c ≠ '\'') :
    read? ((write text).toList ++ rest) = some (text, rest) := by
  have hquote : ∀ c ∈ rest.head?, c ≠ '"' := fun c hc => (hrest c hc).1
  have hapostrophe : ∀ c ∈ rest.head?, c ≠ '\'' := fun c hc => (hrest c hc).2
  have hdone : ∀ {read : Option (List Char × List Char)}, read = some (text.toList, rest) →
      (read.map fun p => (String.ofList p.1, p.2)) = some (text, rest) := by
    rintro _ rfl
    rw [Option.map_some, String.ofList_toList]
  unfold write
  rw [String.toList_ofList]
  cases hform : form text.toList with
  | basic =>
    have hread := basic_written text.toList rest
    simp only [List.cons_append, List.append_assoc, List.nil_append]
    rw [read?_of_basic ?_ hread, String.ofList_toList]
    intro more h
    cases htext : text.toList with
    | nil =>
      rw [htext] at h
      exact hquote '"' (by rw [(List.cons.inj h).2]; rfl) rfl
    | cons c cs =>
      obtain ⟨d, xs, hd, hne⟩ := (escaped_escape c).exists_head
      rw [htext, List.flatMap_cons, hd] at h
      exact hne (List.cons.inj h).1
  | literal =>
    have hplain := form_eq_literal hform
    simp only [List.cons_append, List.append_assoc, List.nil_append]
    rw [read?_of_literal ?_ (literal_written hplain rest), String.ofList_toList]
    intro more h
    cases htext : text.toList with
    | nil =>
      rw [htext] at h
      exact hapostrophe '\'' (by rw [(List.cons.inj h).2]; rfl) rfl
    | cons c cs =>
      rw [htext] at h hplain
      exact (hplain c List.mem_cons_self).2 (List.cons.inj h).1
  | basicLines =>
    have hread : basicLines (escapeLines 0 text.toList ++ closing '"' rest) =
        some (text.toList, rest) := basicLines_written hquote (by omega)
    rw [← opened_basicLines] at hread
    simp only [List.cons_append, List.append_assoc, List.nil_append]
    exact hdone hread
  | literalLines =>
    obtain ⟨hplain, hrun⟩ := form_eq_literalLines hform
    have hread := literalLines_written hapostrophe hplain hrun
    rw [← opened_literalLines] at hread
    simp only [List.cons_append, List.append_assoc, List.nil_append]
    exact hdone hread

theorem write_eq_cons (text : String) :
    ∃ c cs, (write text).toList = c :: cs ∧ (c = '"' ∨ c = '\'') := by
  unfold write
  rw [String.toList_ofList]
  cases form text.toList with
  | basic => exact ⟨'"', _, rfl, .inl rfl⟩
  | literal => exact ⟨'\'', _, rfl, .inr rfl⟩
  | basicLines => exact ⟨'"', _, rfl, .inl rfl⟩
  | literalLines => exact ⟨'\'', _, rfl, .inr rfl⟩

theorem mem_opening {text : List Char} {d : Char} (h : d ∈ opening text) : d = '\n' := by
  unfold opening at h
  split at h
  · exact List.mem_singleton.mp h
  · cases h

/-- A written string has no control characters but tabs and line feeds. -/
theorem mem_write {text : String} {d : Char} (h : d ∈ (write text).toList) :
    isPlain d = true ∨ d = '\n' := by
  have hquote : isPlain '"' = true := by decide
  have hapostrophe : isPlain '\'' = true := by decide
  have hopening : d ∈ opening text.toList → d = '\n' := mem_opening
  simp only [write, String.toList_ofList] at h
  cases hform : form text.toList with
  | basic =>
    simp only [hform, List.mem_cons, List.mem_append, List.mem_flatMap, List.not_mem_nil,
      or_false] at h
    rcases h with (rfl | ⟨c, -, hc⟩) | rfl
    · exact .inl hquote
    · exact .inl (isPlain_of_mem_escape hc)
    · exact .inl hquote
  | literal =>
    simp only [hform, List.mem_cons, List.mem_append, List.not_mem_nil, or_false] at h
    rcases h with (rfl | h) | rfl
    · exact .inl hapostrophe
    · exact .inl (form_eq_literal hform d h).1
    · exact .inl hapostrophe
  | basicLines =>
    simp only [hform, List.mem_cons, List.mem_append, List.not_mem_nil, or_false, or_self] at h
    rcases h with ((rfl | h) | h) | rfl
    · exact .inl hquote
    · exact .inr (hopening h)
    · exact (mem_escapeLines h).imp_right And.left
    · exact .inl hquote
  | literalLines =>
    simp only [hform, List.mem_cons, List.mem_append, List.not_mem_nil, or_false, or_self] at h
    rcases h with ((rfl | h) | h) | rfl
    · exact .inl hapostrophe
    · exact .inr (hopening h)
    · simpa using (form_eq_literalLines hform).1 d h
    · exact .inl hapostrophe

end Signet.Toml.Quoted
