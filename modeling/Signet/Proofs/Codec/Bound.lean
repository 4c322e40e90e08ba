import Signet.Codec

/-! # The limit of the codec

Whatever is read from a term, the bytes are no more than the codec allows. A walk takes at most
as many cells as its limit says, and two digits make one byte, so both checks come before any
byte is kept. -/
namespace Signet

namespace Cursor

theorem length_drain_le (E : Env) (c : Cursor) (taken : List Term) :
    (c.drain E taken).1.length ≤ taken.length + c.left := by
  fun_induction drain E c taken with
  | case1 c taken h => simp
  | case2 c taken e c' h => simp
  | case3 c taken t c' h ih =>
    have hleft := left_lt_of_next? h
    rw [List.length_cons] at ih
    omega

end Cursor

theorem Env.length_items_le (E : Env) (limit : Nat) (list : Term) :
    (E.items limit list).1.length ≤ limit := by
  have h := Cursor.length_drain_le E (Cursor.start list limit) []
  simpa [Env.items, Cursor.start] using h

theorem length_of_mapM {α β ε : Type} {f : α → Except ε β} {xs : List α} {ys : List β}
    (h : xs.mapM f = .ok ys) : ys.length = xs.length := by
  induction xs generalizing ys with
  | nil => cases h; rfl
  | cons x xs ih =>
    rw [List.mapM_cons] at h
    cases hx : f x with
    | error e => rw [hx] at h; cases h
    | ok y =>
      cases hxs : xs.mapM f with
      | error e => rw [hx, hxs] at h; cases h
      | ok zs =>
        rw [hx, hxs] at h
        cases h
        rw [List.length_cons, List.length_cons, ih hxs]

namespace Hex

theorem length_decodeFrom {i : Nat} {done digits bytes : Bytes}
    (h : decodeFrom i done digits = .ok bytes) :
    2 * bytes.length = 2 * done.length + digits.length := by
  fun_induction decodeFrom i done digits with
  | case1 i done => cases h; simp
  | case2 i done c => cases h
  | case3 i done hi lo rest a ha b hb ih =>
    have hlen := ih h
    simp only [List.length_cons] at hlen ⊢
    omega
  | case4 => cases h
  | case5 => cases h

theorem length_decode {digits bytes : Bytes} (h : decode digits = .ok bytes) :
    digits.length = 2 * bytes.length := by
  unfold decode at h
  split at h
  · cases h
  · have hlen := length_decodeFrom h
    simpa using hlen.symm

end Hex

theorem length_utf8 (text : String) : (utf8 text).length = text.utf8ByteSize := by
  simp [utf8]

namespace Codec

theorem length_octets_le {codec : Codec} {t : Term} {E : Env} {bytes : Bytes}
    (h : codec.octets t E = .ok bytes) : bytes.length ≤ codec.maxBytes := by
  unfold octets at h
  have hitems := E.length_items_le codec.maxBytes t
  cases hm : (E.items codec.maxBytes t).1.mapM Term.byte with
  | error e => simp only [hm] at h; cases h
  | ok read =>
    have hlen := length_of_mapM hm
    simp only [hm] at h
    cases hs : (E.items codec.maxBytes t).2 with
    | some e => simp only [hs] at h; cases h
    | none =>
      simp only [hs] at h
      cases h
      omega

theorem length_hexDigits_le {codec : Codec} {text : String} {bytes : Bytes}
    (h : codec.hexDigits text = .ok bytes) : bytes.length ≤ codec.maxBytes := by
  unfold hexDigits at h
  split at h
  · cases h
  · rename_i hle
    cases hd : Hex.decode (utf8 text) with
    | error e => simp only [hd] at h; cases h
    | ok read =>
      have hlen := Hex.length_decode hd
      rw [length_utf8] at hlen
      simp only [hd] at h
      cases h
      omega

theorem length_decode_le {codec : Codec} {t : Term} {encoding : Encoding} {E : Env} {bytes : Bytes}
    (h : codec.decode t encoding E = .ok bytes) : bytes.length ≤ codec.maxBytes := by
  unfold decode at h
  split at h
  · exact length_hexDigits_le h
  · cases h
  · split at h
    · exact length_octets_le h
    · cases h

end Codec

end Signet
