import Signet.Bytes.Number

/-! SHA-256 and SHA-512. The two differ in the width of a word, the number of rounds and the
rotations; both take their constants from roots of the first primes. -/

namespace Signet.Sha2

/-- The first 64 bits behind the point of the `k`-th root of `n`. -/
def rootFraction (k n : Nat) : Nat :=
  let root := (List.range 70).reverse.foldl
    (fun r i => if Nat.pow (r + (1 <<< i)) k ≤ n <<< (64 * k) then r + (1 <<< i) else r) 0
  root % (1 <<< 64)

/-- The first eighty primes. -/
def primes : List Nat :=
  (List.range 410).filter fun n => 2 ≤ n && (List.range n).all fun d => d < 2 || n % d != 0

structure Variant (W : Type) where
  /-- Bytes in a word. -/
  size : Nat
  rounds : Nat
  ofNat : Nat → W
  toNat : W → Nat
  add : W → W → W
  xor : W → W → W
  /-- Bitwise choice: where a bit of the first word is set the second word's bit, else the third's. -/
  choose : W → W → W → W
  majority : W → W → W → W
  bigSigma0 : W → W
  bigSigma1 : W → W
  smallSigma0 : W → W
  smallSigma1 : W → W

/-- The working variables. -/
structure State (W : Type) where
  a : W
  b : W
  c : W
  d : W
  e : W
  f : W
  g : W
  h : W

namespace State

def toList (s : State W) : List W := [s.a, s.b, s.c, s.d, s.e, s.f, s.g, s.h]

def zip (op : W → W → W) (s t : State W) : State W :=
  ⟨op s.a t.a, op s.b t.b, op s.c t.c, op s.d t.d, op s.e t.e, op s.f t.f, op s.g t.g, op s.h t.h⟩

end State

namespace Variant

variable {W : Type} (v : Variant W)

/-- The leading bits of a 64-bit fraction. -/
def ofFraction (n : Nat) : W := v.ofNat (n >>> (64 - 8 * v.size))

def constants : Array W := (primes.map fun p => v.ofFraction (rootFraction 3 p)).toArray

def initial : State W :=
  let root (p : Nat) := v.ofFraction (rootFraction 2 p)
  ⟨root 2, root 3, root 5, root 7, root 11, root 13, root 17, root 19⟩

/-- The first sixteen words of the schedule. -/
def words (block : Bytes) : Array W :=
  ((List.range 16).map fun i =>
    v.ofNat (Bytes.toNatBE ((block.drop (i * v.size)).take v.size))).toArray

def schedule (block : Bytes) : Array W :=
  let zero := v.ofNat 0
  (List.range (v.rounds - 16)).foldl
    (fun w i =>
      w.push (v.add (v.add (v.smallSigma1 (w.getD (i + 14) zero)) (w.getD (i + 9) zero))
        (v.add (v.smallSigma0 (w.getD (i + 1) zero)) (w.getD i zero))))
    (v.words block)

def round (s : State W) (k w : W) : State W :=
  let t1 := v.add (v.add (v.add s.h (v.bigSigma1 s.e)) (v.add (v.choose s.e s.f s.g) k)) w
  let t2 := v.add (v.bigSigma0 s.a) (v.majority s.a s.b s.c)
  ⟨v.add t1 t2, s.a, s.b, s.c, v.add s.d t1, s.e, s.f, s.g⟩

def compress (constants : Array W) (s : State W) (block : Bytes) : State W :=
  let rounds := constants.zip (v.schedule block)
  (rounds.foldl (fun t kw => v.round t kw.1 kw.2) s).zip v.add s

/-- The message with a one bit, zeros and its length in bits behind it. -/
def pad (message : Bytes) : Bytes :=
  let block := 16 * v.size
  let zeros := (2 * block - 1 - 2 * v.size - message.length % block) % block
  message ++ 0x80 :: List.replicate zeros 0 ++ Bytes.ofNatBE (2 * v.size) (8 * message.length)

/-- Takes in the bytes block by block. -/
def absorb (constants : Array W) (s : State W) (bytes : Bytes) : State W :=
  match bytes with
  | [] => s
  | b :: rest =>
    absorb constants (v.compress constants s ((b :: rest).take (16 * v.size)))
      (rest.drop (16 * v.size - 1))
termination_by bytes.length
decreasing_by
  simp only [List.length_drop, List.length_cons]
  omega

def digest (constants : Array W) (initial : State W) (message : Bytes) : Bytes :=
  (v.absorb constants initial (v.pad message)).toList.flatMap fun w =>
    Bytes.ofNatBE v.size (v.toNat w)

theorem length_digest (constants : Array W) (initial : State W) (message : Bytes) :
    (v.digest constants initial message).length = 8 * v.size := by
  simp [digest, State.toList, Bytes.ofNatBE]
  omega

end Variant

def rotate32 (x : UInt32) (n : UInt32) : UInt32 := (x >>> n) ||| (x <<< (32 - n))

def rotate64 (x : UInt64) (n : UInt64) : UInt64 := (x >>> n) ||| (x <<< (64 - n))

def variant256 : Variant UInt32 where
  size := 4
  rounds := 64
  ofNat := UInt32.ofNat
  toNat := UInt32.toNat
  add x y := x + y
  xor x y := x ^^^ y
  choose x y z := (x &&& y) ^^^ (~~~x &&& z)
  majority x y z := (x &&& y) ^^^ (x &&& z) ^^^ (y &&& z)
  bigSigma0 x := rotate32 x 2 ^^^ rotate32 x 13 ^^^ rotate32 x 22
  bigSigma1 x := rotate32 x 6 ^^^ rotate32 x 11 ^^^ rotate32 x 25
  smallSigma0 x := rotate32 x 7 ^^^ rotate32 x 18 ^^^ (x >>> 3)
  smallSigma1 x := rotate32 x 17 ^^^ rotate32 x 19 ^^^ (x >>> 10)

def variant512 : Variant UInt64 where
  size := 8
  rounds := 80
  ofNat := UInt64.ofNat
  toNat := UInt64.toNat
  add x y := x + y
  xor x y := x ^^^ y
  choose x y z := (x &&& y) ^^^ (~~~x &&& z)
  majority x y z := (x &&& y) ^^^ (x &&& z) ^^^ (y &&& z)
  bigSigma0 x := rotate64 x 28 ^^^ rotate64 x 34 ^^^ rotate64 x 39
  bigSigma1 x := rotate64 x 14 ^^^ rotate64 x 18 ^^^ rotate64 x 41
  smallSigma0 x := rotate64 x 1 ^^^ rotate64 x 8 ^^^ (x >>> 7)
  smallSigma1 x := rotate64 x 19 ^^^ rotate64 x 61 ^^^ (x >>> 6)

def constants256 : Array UInt32 := variant256.constants

def initial256 : State UInt32 := variant256.initial

def constants512 : Array UInt64 := variant512.constants

def initial512 : State UInt64 := variant512.initial

end Signet.Sha2

namespace Signet

def sha256 (message : Bytes) : Vector UInt8 32 :=
  ⟨(Sha2.variant256.digest Sha2.constants256 Sha2.initial256 message).toArray, by
    rw [List.size_toArray, Sha2.Variant.length_digest]
    rfl⟩

def sha512 (message : Bytes) : Vector UInt8 64 :=
  ⟨(Sha2.variant512.digest Sha2.constants512 Sha2.initial512 message).toArray, by
    rw [List.size_toArray, Sha2.Variant.length_digest]
    rfl⟩

end Signet
