import Signet.Codec
import Signet.Env.Simplify
import Signet.Proofs.Env.Lists

/-! # Lists of octets

Reading a list of octets undoes writing it, and reads nothing else: what is read is exactly what
the list stands for, cells, elements and tail behind any bindings. One induction along the walk
settles both directions, with the cells that may still be taken as the bound on the bytes. -/
namespace Signet

namespace Term

theorem bind_of_ground {t : Term} (h : t.vars = []) (σ : Nat → Term) : t.bind σ = t := by
  rw [bind_congr (τ := .var), bind_var]
  simp [h]

theorem byte_ok_iff {t : Term} {b : UInt8} : t.byte = .ok b ↔ t = .int (Int64.ofNat b.toNat) := by
  have hb := b.toNat_lt
  have hval : (Int64.ofNat b.toNat).toInt = b.toNat := Int64.toInt_ofNat_of_lt (by omega)
  unfold byte
  split
  · rename_i i
    split
    · rename_i hi
      rw [Except.ok.injEq, Term.int.injEq, ← Int64.toInt_inj, hval, ← UInt8.toNat_inj,
        UInt8.toNat_ofNat']
      omega
    · rename_i hi
      simp only [reduceCtorEq, false_iff, Term.int.injEq]
      rintro rfl
      omega
  · simp
  · rename_i hi _
    simpa using hi _

theorem ofBytes_nil : ofBytes [] = nil := rfl

theorem ofBytes_cons (b : UInt8) (bytes : Bytes) :
    ofBytes (b :: bytes) = cons (.int (Int64.ofNat b.toNat)) (ofBytes bytes) :=
  rfl

theorem ofBytes_inj {as bs : Bytes} : ofBytes as = ofBytes bs ↔ as = bs := by
  induction as generalizing bs with
  | nil => cases bs <;> simp [ofBytes_nil, ofBytes_cons, nil, cons]
  | cons a as ih =>
    cases bs with
    | nil => simp [ofBytes_nil, ofBytes_cons, nil, cons]
    | cons b bs =>
      have hbyte : Term.int (Int64.ofNat a.toNat) = .int (Int64.ofNat b.toNat) ↔ a = b := by
        rw [← byte_ok_iff, byte_ok_iff.mpr rfl, Except.ok.injEq]
      simp [ofBytes_cons, cons, -int.injEq, hbyte, ih]

theorem isListLike_ofBytes (bytes : Bytes) : (ofBytes bytes).isListLike = true := by
  cases bytes <;> rfl

theorem vars_ofBytes (bytes : Bytes) : (ofBytes bytes).vars = [] := by
  induction bytes with
  | nil => rfl
  | cons b bytes ih => simp [ofBytes_cons, cons, vars_compound, vars, ih]

end Term

namespace Env
variable {E : Env} {t : Term}

theorem apply_of_ground (E : Env) (h : t.vars = []) : E.apply t = t := by
  unfold apply
  induction E.bindings with
  | nil => rfl
  | cons b l ih => rw [Bindings.apply, ih, Term.bind_of_ground h]

theorem isListLike_of_apply_ofBytes {bytes : Bytes} (h : E.apply t = .ofBytes bytes) :
    (E.resolve t).isListLike = true := by
  rw [Term.isListLike_iff]
  cases bytes with
  | nil => exact .inl (resolve_eq_atom_iff.mpr h)
  | cons b bytes => exact .inr (resolve_of_apply_cons h)

end Env

namespace Codec

/-- The bytes of the items of a walk, unless one of them or the end of the walk is amiss. -/
def gather (walked : List Term × Option TermError) : Except ErrorKind Bytes := do
  let bytes ← walked.1.mapM Term.byte
  match walked.2 with
  | some e => .error e.kind
  | none => .ok bytes

theorem octets_eq_gather (codec : Codec) (t : Term) (E : Env) :
    codec.octets t E = gather (E.walk codec.maxBytes codec.maxBytes t) :=
  rfl

theorem gather_nil : gather ([], none) = .ok [] := rfl

theorem gather_stop (e : TermError) : gather ([], some e) = .error e.kind := rfl

theorem gather_cons (t : Term) (walked : List Term × Option TermError) :
    gather (t :: walked.1, walked.2) = do
      let b ← t.byte
      let bytes ← gather walked
      return b :: bytes := by
  unfold gather
  rw [List.mapM_cons]
  cases t.byte with
  | error e => rfl
  | ok b =>
    cases walked.1.mapM Term.byte with
    | error e => rfl
    | ok bytes => cases walked.2 <;> rfl

theorem gather_cons_ok_iff {t : Term} {walked : List Term × Option TermError} {bytes : Bytes} :
    gather (t :: walked.1, walked.2) = .ok bytes ↔
      ∃ b rest, bytes = b :: rest ∧ t = .int (Int64.ofNat b.toNat) ∧ gather walked = .ok rest := by
  rw [gather_cons]
  constructor
  · intro h
    cases hb : t.byte with
    | error e => rw [hb] at h; cases h
    | ok b =>
      cases hrest : gather walked with
      | error e => rw [hb, hrest] at h; cases h
      | ok rest =>
        rw [hb, hrest] at h
        cases h
        exact ⟨b, rest, rfl, Term.byte_ok_iff.mp hb, rfl⟩
  · rintro ⟨b, rest, rfl, ht, hrest⟩
    rw [Term.byte_ok_iff.mpr ht, hrest]
    rfl

theorem gather_walk_ok_iff (E : Env) (limit left : Nat) (t : Term) (bytes : Bytes) :
    gather (E.walk limit left t) = .ok bytes ↔
      E.apply t = .ofBytes bytes ∧ bytes.length ≤ left := by
  rcases Term.list_cases (E.resolve t) with h | ⟨head, tail, h⟩ | ⟨v, h⟩ | ⟨hv, hl⟩
  · have happly : E.apply t = .ofBytes [] := Env.resolve_eq_atom_iff.mp h
    rw [Env.walk_nil h, gather_nil, happly, Term.ofBytes_inj, Except.ok.injEq]
    constructor
    · rintro rfl
      simp
    · exact And.left
  · have happly := Env.apply_of_resolve_cons h
    cases left with
    | zero =>
      rw [Env.walk_full h, gather_stop, happly]
      cases bytes <;> simp [Term.ofBytes_nil, Term.nil, Term.cons]
    | succ left =>
      rw [Env.walk_cons h, gather_cons_ok_iff, happly]
      cases bytes with
      | nil => simp [Term.ofBytes_nil, Term.nil, Term.cons]
      | cons b rest =>
        have ih := gather_walk_ok_iff E limit left tail rest
        simp [Term.ofBytes_cons, Term.cons, Env.resolve_eq_int_iff, ih, and_assoc]
  · rw [Env.walk_var h, gather_stop, Env.resolve_eq_var_iff.mp h]
    cases bytes <;> simp [Term.ofBytes_nil, Term.ofBytes_cons, Term.nil, Term.cons]
  · rw [Env.walk_improper hv hl, gather_stop]
    simp only [reduceCtorEq, false_iff, not_and]
    intro h
    rw [Env.isListLike_of_apply_ofBytes h] at hl
    cases hl

theorem octets_ok_iff {codec : Codec} {t : Term} {E : Env} {bytes : Bytes} :
    codec.octets t E = .ok bytes ↔ E.apply t = .ofBytes bytes ∧ bytes.length ≤ codec.maxBytes := by
  rw [octets_eq_gather]
  exact gather_walk_ok_iff E codec.maxBytes codec.maxBytes t bytes

theorem decode_octet_ok_iff {codec : Codec} {t : Term} {E : Env} {bytes : Bytes} :
    codec.decode t .octet E = .ok bytes ↔
      E.apply t = .ofBytes bytes ∧ bytes.length ≤ codec.maxBytes := by
  unfold decode
  dsimp only
  split
  · rw [octets_ok_iff, Env.apply_resolve]
  · rename_i hl
    simp only [reduceCtorEq, false_iff, not_and]
    intro h
    exact absurd (Env.isListLike_of_apply_ofBytes h) hl

/-- A term is read as the bytes whose list it stands for, if the codec allows so many, and as
nothing else. So writing and reading are inverse to each other. -/
theorem octets_inverse (codec : Codec) (E : Env) :
    (∀ t bytes, codec.octets t E = .ok bytes ↔
      E.simplify t = .ofBytes bytes ∧ bytes.length ≤ codec.maxBytes) ∧
      (∀ bytes, bytes.length ≤ codec.maxBytes → codec.octets (.ofBytes bytes) E = .ok bytes) ∧
      ∀ as bs, Term.ofBytes as = .ofBytes bs → as = bs := by
  refine ⟨?_, ?_, fun as bs => Term.ofBytes_inj.mp⟩
  · intro t bytes
    rw [Env.simplify_eq]
    exact octets_ok_iff
  · intro bytes hlen
    exact octets_ok_iff.mpr ⟨E.apply_of_ground (Term.vars_ofBytes bytes), hlen⟩

/-- The first cell, its element and its tail each stand behind a binding, and the limit is met. -/
theorem octets_inverse_scattered :
    let E : Env := ⟨[(0, .var 1), (1, .cons (.var 2) (.var 3)), (3, .nil), (2, .int 255)],
      ⟨⟨⟨trivial, rfl, by decide⟩, rfl, by decide⟩, rfl, by decide⟩, rfl, by decide⟩
    (⟨1⟩ : Codec).octets (.var 0) E = .ok [255] ∧ (⟨0⟩ : Codec).octets (.var 0) E ≠ .ok [255] ∧
      [7].length ≤ 1 ∧ (⟨1⟩ : Codec).octets (.ofBytes [7]) E = .ok [7] := by
  intro E
  have hlist : E.simplify (.var 0) = .ofBytes [255] := by
    rw [Env.simplify_eq]
    rfl
  refine ⟨((octets_inverse ⟨1⟩ E).1 _ _).mpr ⟨hlist, by decide⟩, fun h => ?_, by decide,
    (octets_inverse ⟨1⟩ E).2.1 [7] (by decide)⟩
  exact absurd (((octets_inverse ⟨0⟩ E).1 _ _).mp h).2 (by decide)

end Codec

end Signet
