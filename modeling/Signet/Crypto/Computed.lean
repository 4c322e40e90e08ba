import Signet.Crypto.Der
import Signet.Crypto.Edwards
import Signet.Crypto.Sec1
import Signet.Crypto.Sha2
import Signet.Crypto.Standard

/-! Primitives that compute, so that the standard provider can be run. A digest of less than 16
bytes never verifies; a longer one counts by its first 32 bytes. On secp256k1 a signature whose
second number is above half the order does not verify either. -/

namespace Signet

namespace Ecdsa

/-- A pair of numbers from 1 to below `n`. -/
structure Signature (n : Nat) where
  r : Fin n
  s : Fin n
  r_pos : 0 < r.val
  s_pos : 0 < s.val

def Signature.ofPair? (n : Nat) (pair : Nat × Nat) : Option (Signature n) :=
  if h : (0 < pair.1 ∧ pair.1 < n) ∧ (0 < pair.2 ∧ pair.2 < n) then
    some ⟨⟨pair.1, h.1.2⟩, ⟨pair.2, h.2.2⟩, h.1.1, h.2.1⟩
  else none

def Signature.decode? (n : Nat) (bytes : Bytes) : Option (Signature n) :=
  (Der.decodePair? bytes).bind (Signature.ofPair? n)

/-- The number that a digest stands for; `none` if it is too short. -/
def scalar? (digest : Bytes) : Option Nat :=
  if digest.length < 16 then none else some (Bytes.toNatBE (digest.take 32))

variable {p n : Nat}

/-- Whether `r` is the abscissa, modulo `n`, of `(z / s) G + (r / s) Q`. -/
def holds (curve : Weierstrass p n) (key : Weierstrass.Point p) (z : Nat) (sig : Signature n) :
    Bool :=
  let w := Residue.inverse sig.s
  let point := curve.add (curve.multiple (Residue.ofNat w z * w).val curve.base)
    (curve.multiple (sig.r * w).val key)
  match point.abscissa? with
  | some x => Residue.ofNat w x.val == sig.r
  | none => false

/-- The operations on a curve, with points read by `key?`. Of the signatures only those that are
`admitted` verify. -/
def onCurve (curve : Weierstrass p n) (key? : Bytes → Option (Weierstrass.Point p))
    (admitted : Signature n → Bool) : Primitives where
  Key := Weierstrass.Point p
  Signature := Signature n
  key? := key?
  signature bytes :=
    match Signature.decode? n bytes with
    | some sig => .ok sig
    | none => .error "signature error"
  numbers sig := (sig.r.val, sig.s.val)
  verifies key digest sig :=
    admitted sig && (scalar? digest).any fun z => holds curve key z sig

end Ecdsa

namespace Ed25519

/-- The two halves of a signature, the second one as a number. -/
structure Signature where
  R : Bytes
  S : Nat

/-- Whether `R` is the encoding of `S B - k A`, where `k` is the hash of `R`, key and message. -/
def holds (point : Edwards.Point) (key message R : Bytes) (S : Nat) : Bool :=
  let k := Bytes.toNatLE (sha512 (R ++ key ++ message)).toList % Edwards.order
  let expected := Edwards.add (Edwards.multiple S Edwards.base)
    (Edwards.multiple k (Edwards.negate point))
  Edwards.encode expected == R

/-- A key is kept together with its encoding. -/
def computed : Primitives where
  Key := Bytes × Edwards.Point
  Signature := Signature
  key? bytes := (Edwards.decode? bytes).map fun point => (bytes, point)
  signature? bytes :=
    if bytes.length = 64 then some ⟨bytes.take 32, Bytes.toNatLE (bytes.drop 32)⟩ else none
  verifies key message sig := sig.S < Edwards.order && holds key.2 key.1 message sig.R sig.S

end Ed25519

def Primitives.computed : Primitives where
  sha256 := Signet.sha256
  ed25519 := Ed25519.computed
  secp256r1 := Ecdsa.onCurve Signet.secp256r1 (Sec1.compressed? Signet.secp256r1) fun _ => true
  secp256k1 := Ecdsa.onCurve Signet.secp256k1 (Sec1.point? Signet.secp256k1) fun sig =>
    sig.s.val ≤ Secp256k1.order / 2

end Signet
