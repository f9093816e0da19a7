/-
ParticleStore.Bytes.LittleEndian — numbers as bytes, least significant first.

`encode width n` writes `n` in exactly `width` bytes and `decode` reads bytes
back. The two are inverse: `decode_encode` says that reading gives the number
modulo `256` to the power of `width`, `encode_decode` that writing gives the bytes. Words of 32
and 64 bits and scalars are the three widths that records use.
-/
import ParticleStore.Scalar

namespace ParticleStore

/-- A string of bytes. -/
abbrev Bytes : Type := List UInt8

namespace LittleEndian

/-- The lowest `width` base-256 digits of a number, least significant first. -/
def encode : Nat → Nat → Bytes
  | 0, _ => []
  | width + 1, n => UInt8.ofNat n :: encode width (n / 256)

/-- The number with the given base-256 digits. -/
def decode : Bytes → Nat
  | [] => 0
  | b :: rest => b.toNat + 256 * decode rest

@[simp] theorem length_encode (width n : Nat) : (encode width n).length = width := by
  induction width generalizing n with
  | zero => rfl
  | succ width ih => simp [encode, ih]

theorem decode_encode (width n : Nat) : decode (encode width n) = n % Nat.pow 256 width := by
  induction width generalizing n with
  | zero => simp [encode, decode, Nat.mod_one]
  | succ width ih =>
    have lowest : (UInt8.ofNat n).toNat = n % 256 := by simp
    have grown : Nat.pow 256 (width + 1) = 256 * Nat.pow 256 width := Nat.mul_comm _ _
    rw [encode, decode, ih, lowest, grown, Nat.mod_mul]

theorem decode_lt (bytes : Bytes) : decode bytes < Nat.pow 256 bytes.length := by
  induction bytes with
  | nil => simp [decode]
  | cons b rest ih =>
    have lowest : b.toNat < 256 := b.toNat_lt
    have grown : Nat.pow 256 (rest.length + 1) = Nat.pow 256 rest.length * 256 := rfl
    simp only [decode, List.length_cons, grown]
    omega

theorem encode_decode (bytes : Bytes) : encode bytes.length (decode bytes) = bytes := by
  induction bytes with
  | nil => rfl
  | cons b rest ih =>
    have lowest : b.toNat < 256 := b.toNat_lt
    have here : UInt8.ofNat (b.toNat + 256 * decode rest) = b := by
      apply UInt8.toNat_inj.mp
      simp only [UInt8.toNat_ofNat']
      omega
    have above : (b.toNat + 256 * decode rest) / 256 = decode rest := by omega
    simp only [List.length_cons, decode, encode, here, above, ih]

/-! ## The widths of a record -/

/-- A 32-bit word in four bytes. -/
def ofWord32 (n : UInt32) : Bytes := encode 4 n.toNat

/-- A 64-bit word in eight bytes. -/
def ofWord64 (n : UInt64) : Bytes := encode 8 n.toNat

/-- A scalar's bits in eight bytes. -/
def ofScalar (x : Scalar) : Bytes := ofWord64 x.bits

/-- The 32-bit word in four bytes. -/
def toWord32 (bytes : Bytes) : UInt32 := UInt32.ofNat (decode bytes)

/-- The 64-bit word in eight bytes. -/
def toWord64 (bytes : Bytes) : UInt64 := UInt64.ofNat (decode bytes)

/-- The scalar whose bits are in eight bytes. -/
def toScalar (bytes : Bytes) : Scalar := ⟨toWord64 bytes⟩

/-- Scalars one after the other. -/
def ofScalars (values : List Scalar) : Bytes := values.flatMap ofScalar

/-- The first `n` scalars of a string of bytes. -/
def toScalars : Nat → Bytes → List Scalar
  | 0, _ => []
  | n + 1, bytes =>
    toScalar (bytes.take Scalar.byteWidth) :: toScalars n (bytes.drop Scalar.byteWidth)

@[simp] theorem length_ofWord32 (n : UInt32) : (ofWord32 n).length = 4 := length_encode ..

@[simp] theorem length_ofWord64 (n : UInt64) : (ofWord64 n).length = 8 := length_encode ..

@[simp] theorem length_ofScalar (x : Scalar) : (ofScalar x).length = 8 := length_encode ..

theorem toWord32_ofWord32 (n : UInt32) : toWord32 (ofWord32 n) = n := by
  have bound : n.toNat % Nat.pow 256 4 = n.toNat := Nat.mod_eq_of_lt n.toNat_lt
  rw [toWord32, ofWord32, decode_encode, bound, UInt32.ofNat_toNat]

theorem toWord64_ofWord64 (n : UInt64) : toWord64 (ofWord64 n) = n := by
  have bound : n.toNat % Nat.pow 256 8 = n.toNat := Nat.mod_eq_of_lt n.toNat_lt
  rw [toWord64, ofWord64, decode_encode, bound, UInt64.ofNat_toNat]

theorem toScalar_ofScalar (x : Scalar) : toScalar (ofScalar x) = x := by
  simp [toScalar, ofScalar, toWord64_ofWord64]

@[simp] theorem length_toScalars (n : Nat) (bytes : Bytes) : (toScalars n bytes).length = n := by
  induction n generalizing bytes with
  | zero => rfl
  | succ n ih => simp [toScalars, ih]

end LittleEndian

end ParticleStore
