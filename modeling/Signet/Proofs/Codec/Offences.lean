import Signet.Proofs.Codec.Octets
import Signet.Proofs.Env.Cells

/-! # What is wrong with a list of octets

The cells of a list are looked at one after the other, and each is at fault or not by its position
and its head alone: a cell beyond the limit, whatever it holds, and else a head that is no byte. The
last tail is looked at only if no cell is at fault. So there is at most one error to report. -/
namespace Signet

namespace Term

/-- Integers are the bytes from 0 to 255. -/
def IsByte (t : Term) : Prop := ∃ i : Int64, t = .int i ∧ 0 ≤ i.toInt ∧ i.toInt ≤ 255

theorem byte_of_isByte {t : Term} (h : t.IsByte) : ∃ b, t.byte = .ok b := by
  obtain ⟨i, rfl, hi⟩ := h
  exact ⟨_, by rw [byte, if_pos hi]⟩

theorem byte_of_not_isByte {t : Term} (h : ¬ t.IsByte) (hvar : ∀ v, t ≠ .var v) :
    t.byte = .error (.type .byte t) := by
  cases t with
  | var v => exact absurd rfl (hvar v)
  | atom a => rfl
  | int i => rw [byte, if_neg fun hi => h ⟨i, rfl, hi⟩]
  | compound f args => rfl

end Term

namespace Codec

/-- What is wrong with the cell at a position, counted from one, that has this head. -/
inductive Offends (codec : Codec) (position : Nat) (head : Term) : ErrorKind → Prop
  | tooLong : codec.maxBytes < position →
      Offends codec position head (.resource "list length" codec.maxBytes)
  | unbound {v : Nat} : position ≤ codec.maxBytes → head = .var v →
      Offends codec position head (.instantiation (.var v))
  | noByte : position ≤ codec.maxBytes → (∀ v, head ≠ .var v) → ¬ head.IsByte →
      Offends codec position head (.type .byte head)

/-- None of the cells with these heads is at fault. -/
def Clean (codec : Codec) (heads : List Term) : Prop :=
  ∀ i head, heads[i]? = some head → ∀ e, ¬ codec.Offends (i + 1) head e

/-- What is wrong with a list that has these heads and this last tail: the fault of the first cell
that has one, or else that of the tail. -/
inductive Offence (codec : Codec) (heads : List Term) (last : Term) : ErrorKind → Prop
  | cell {before behind : List Term} {head : Term} {e : ErrorKind} :
      heads = before ++ head :: behind → codec.Clean before →
      codec.Offends (before.length + 1) head e → Offence codec heads last e
  | openTail {v : Nat} : codec.Clean heads → last = .var v →
      Offence codec heads last (.instantiation (.var v))
  | noList : codec.Clean heads → last ≠ .nil → (∀ v, last ≠ .var v) →
      Offence codec heads last (.type .list last)

variable {codec : Codec} {heads before behind : List Term} {head last t : Term} {E : Env}
  {e : ErrorKind}

theorem Offends.byte_eq (h : codec.Offends (before.length + 1) head e)
    (hle : before.length < codec.maxBytes) : head.byte = .error e := by
  cases h with
  | tooLong hlt => omega
  | unbound _ hv => rw [hv, Term.byte]
  | noByte _ hvar hbyte => exact Term.byte_of_not_isByte hbyte hvar

theorem exists_offends_of_not_isByte {position : Nat} (hle : position ≤ codec.maxBytes)
    (h : ¬ head.IsByte) : ∃ e, codec.Offends position head e := by
  by_cases hvar : ∃ v, head = .var v
  · obtain ⟨v, hv⟩ := hvar
    exact ⟨_, .unbound hle hv⟩
  · exact ⟨_, .noByte hle (not_exists.mp hvar) h⟩

/-- No cell is at fault if all heads are bytes and there are not too many of them. -/
theorem clean_iff :
    codec.Clean heads ↔ heads.length ≤ codec.maxBytes ∧ ∀ head ∈ heads, head.IsByte := by
  constructor
  · intro h
    have hlen : heads.length ≤ codec.maxBytes := Nat.le_of_not_lt fun hlt =>
      h _ _ (List.getElem?_eq_getElem hlt) _ (.tooLong (Nat.lt_succ_self _))
    refine ⟨hlen, fun head hmem => Classical.byContradiction fun hbyte => ?_⟩
    obtain ⟨i, hi, rfl⟩ := List.getElem_of_mem hmem
    obtain ⟨e, he⟩ := exists_offends_of_not_isByte (Nat.le_trans hi hlen) hbyte
    exact h i _ (List.getElem?_eq_getElem hi) e he
  · intro hboth i head hget e he
    obtain ⟨hlen, hbytes⟩ := hboth
    obtain ⟨hi, rfl⟩ := List.getElem?_eq_some_iff.mp hget
    cases he with
    | tooLong hlt => omega
    | unbound _ hv =>
      obtain ⟨n, hn, -⟩ := hbytes _ (List.getElem_mem hi)
      rw [hv] at hn
      cases hn
    | noByte _ _ hbyte => exact hbyte (hbytes _ (List.getElem_mem hi))

/-- Bytes in front change nothing about an error. -/
theorem gather_append_error_iff (h : ∀ head ∈ before, head.IsByte) (items : List Term)
    (stop : Option TermError) :
    gather (before ++ items, stop) = .error e ↔ gather (items, stop) = .error e := by
  induction before with
  | nil => rfl
  | cons head before ih =>
    obtain ⟨hhead, hbefore⟩ := List.forall_mem_cons.mp h
    obtain ⟨b, hb⟩ := Term.byte_of_isByte hhead
    rw [← ih hbefore, List.cons_append, gather_cons head (before ++ items, stop), hb]
    cases gather (before ++ items, stop) with
    | error e' => rfl
    | ok bytes => simp [bind, Except.bind, pure, Except.pure]

theorem octets_of_offends (h : E.Cells t (before ++ head :: behind) last)
    (hclean : codec.Clean before) (he : codec.Offends (before.length + 1) head e) :
    codec.octets t E = .error e := by
  obtain ⟨hlen, hbytes⟩ := clean_iff.mp hclean
  rw [octets_eq_gather]
  rcases Nat.lt_or_eq_of_le hlen with hlt | heq
  · obtain ⟨items, stop, hwalk⟩ := h.exists_walk_behind hlt
    rw [hwalk, gather_append_error_iff hbytes, gather_cons head (items, stop), he.byte_eq hlt]
    rfl
  · have hlong : codec.maxBytes < (before ++ head :: behind).length := by simp [← heq]
    rw [h.walk_of_lt hlong, ← heq, List.take_left, ← List.append_nil before,
      gather_append_error_iff hbytes, List.append_nil, gather_stop, heq]
    cases he with
    | tooLong _ => rfl
    | unbound hle _ => omega
    | noByte hle _ _ => omega

/-- With no cell at fault, there is no error but that of the last tail. -/
theorem octets_error_iff_of_clean (h : E.Cells t heads last) (hclean : codec.Clean heads) :
    codec.octets t E = .error e ↔ ∃ c, last.tailError? = some c ∧ e = c.kind := by
  obtain ⟨hlen, hbytes⟩ := clean_iff.mp hclean
  rw [octets_eq_gather, h.walk_of_le hlen, ← List.append_nil heads, gather_append_error_iff hbytes]
  cases last.tailError? with
  | none => simp [gather_nil]
  | some c => simp [gather_stop, eq_comm]

theorem Offence.octets_eq (h : codec.Offence heads last e) (hcells : E.Cells t heads last) :
    codec.octets t E = .error e := by
  cases h with
  | cell hheads hclean he =>
    subst hheads
    exact octets_of_offends hcells hclean he
  | openTail hclean hlast =>
    subst hlast
    exact (octets_error_iff_of_clean hcells hclean).mpr ⟨_, Term.tailError?_var _, rfl⟩
  | noList hclean hnil hvar =>
    exact (octets_error_iff_of_clean hcells hclean).mpr ⟨_, Term.tailError?_improper hnil hvar, rfl⟩

theorem clean_or_offends (codec : Codec) (heads : List Term) :
    codec.Clean heads ∨ ∃ before head behind e, heads = before ++ head :: behind ∧
      codec.Clean before ∧ codec.Offends (before.length + 1) head e := by
  rcases exists_first_not Term.IsByte heads codec.maxBytes with
    hbytes | ⟨before, head, behind, rfl, hlen, hbefore, hhead⟩
  · by_cases hlen : heads.length ≤ codec.maxBytes
    · rw [List.take_of_length_le hlen] at hbytes
      exact .inl (clean_iff.mpr ⟨hlen, hbytes⟩)
    · have hlt := Nat.lt_of_not_le hlen
      have hlength : (heads.take codec.maxBytes).length = codec.maxBytes :=
        List.length_take_of_le (Nat.le_of_lt hlt)
      have hsplit := (List.take_append_drop codec.maxBytes heads).symm
      rw [List.drop_eq_getElem_cons hlt] at hsplit
      exact .inr ⟨_, _, _, _, hsplit, clean_iff.mpr ⟨Nat.le_of_eq hlength, hbytes⟩,
        .tooLong (by omega)⟩
  · obtain ⟨e, he⟩ := exists_offends_of_not_isByte hlen hhead
    exact .inr ⟨before, head, behind, e, rfl, clean_iff.mpr ⟨Nat.le_of_lt hlen, hbefore⟩, he⟩

/-- The error of reading a list is the fault of the cell at the least position that has one, or else
that of the last tail; a list without fault is read. What stands behind the first fault makes no
difference. -/
theorem octets_error_exact (codec : Codec) (t : Term) (E : Env) :
    (∃ heads last, E.Cells t heads last) ∧
      (∀ heads last, E.Cells t heads last →
        ∀ e, codec.octets t E = .error e ↔ codec.Offence heads last e) ∧
      ∀ (F : Env) (t' : Term) before head behind last behind' last' e,
        E.Cells t (before ++ head :: behind) last → F.Cells t' (before ++ head :: behind') last' →
        codec.Clean before → codec.Offends (before.length + 1) head e →
        codec.octets t E = .error e ∧ codec.octets t' F = .error e := by
  refine ⟨E.exists_cells t, ?_, ?_⟩
  · intro heads last hcells e
    refine ⟨fun h => ?_, fun h => h.octets_eq hcells⟩
    rcases clean_or_offends codec heads with hclean | ⟨before, head, behind, e', rfl, hclean, he⟩
    · obtain ⟨c, hc, rfl⟩ := (octets_error_iff_of_clean hcells hclean).mp h
      by_cases hnil : last = .nil
      · rw [hnil, Term.tailError?_nil] at hc
        cases hc
      · by_cases hvar : ∃ v, last = .var v
        · obtain ⟨v, rfl⟩ := hvar
          cases hc
          exact .openTail hclean rfl
        · rw [Term.tailError?_improper hnil (not_exists.mp hvar)] at hc
          cases hc
          exact .noList hclean hnil (not_exists.mp hvar)
    · rw [octets_of_offends hcells hclean he] at h
      cases h
      exact .cell rfl hclean he
  · intro F t' before head behind last behind' last' e hcells hcells' hclean he
    exact ⟨octets_of_offends hcells hclean he, octets_of_offends hcells' hclean he⟩

/-- The second cell stands behind a binding. Its head is no byte, and its tail is unbound; with a
limit of one cell neither counts. -/
theorem octets_error_exact_neighbours :
    let E : Env := ⟨[(0, .cons (.atom "x") (.var 1))], trivial, rfl, by decide⟩
    let list : Term := .cons (.int 5) (.var 0)
    E.Cells list [.int 5, .atom "x"] (.var 1) ∧
      (Codec.mk 1).octets list E = .error (.resource "list length" 1) ∧
      (Codec.mk 2).octets list E = .error (.type .byte (.atom "x")) ∧
      (Codec.mk 1).octets (.cons (.int 5) (.var 1)) E = .error (.instantiation (.var 1)) := by
  intro E list
  have hlast : E.resolve (.var 1) = .var 1 := Env.resolve_of_unbound rfl
  have hopen : E.Cells (.var 1) [] (E.resolve (.var 1)) := .last (by rw [hlast]; rfl)
  have hlink : E.resolve (.var 0) = .cons (.atom "x") (.var 1) := by
    rw [Env.resolve_of_lookup (s := .cons (.atom "x") (.var 1)) rfl]
    exact E.resolve_cons _ _
  have hcells := Env.Cells.cell (E.resolve_cons (.int 5) _) (.cell hlink hopen)
  have hshort := Env.Cells.cell (E.resolve_cons (.int 5) _) hopen
  rw [hlast, E.resolve_int] at hcells hshort
  rw [E.resolve_atom] at hcells
  have hclean : ∀ max, 0 < max → (Codec.mk max).Clean [.int 5] := fun max hmax =>
    clean_iff.mpr ⟨hmax, List.forall_mem_singleton.mpr ⟨5, rfl, by decide, by decide⟩⟩
  have hsplit : [Term.int 5, .atom "x"] = [.int 5] ++ .atom "x" :: [] := rfl
  refine ⟨hcells, ?_, ?_, ?_⟩
  · refine ((octets_error_exact ⟨1⟩ list E).2.1 _ _ hcells _).mpr ?_
    exact .cell hsplit (hclean 1 (by decide)) (.tooLong (by decide))
  · refine ((octets_error_exact ⟨2⟩ list E).2.1 _ _ hcells _).mpr ?_
    have hbyte : ¬ (Term.atom "x").IsByte := by simp [Term.IsByte]
    exact .cell hsplit (hclean 2 (by decide)) (.noByte (by decide) (by simp) hbyte)
  · refine ((octets_error_exact ⟨1⟩ _ E).2.1 _ _ hshort _).mpr ?_
    exact .openTail (hclean 1 (by decide)) rfl

end Codec

end Signet
