/-
ParticleStore.Scalar — the numbers that coordinates and properties are made of.

A scalar is a 64-bit binary floating-point number kept as its bits. Storing,
copying, encoding and decoding a scalar move those bits, so a NaN keeps its
payload and a zero its sign. Comparison is numeric and differs from equality of
bits in two places: a NaN equals nothing, and the two zeros equal each other
(`Scalar.sameValue_self`, `Scalar.sameValue_zeros`).
-/

namespace ParticleStore

/-- A 64-bit floating-point number, given by its bits. -/
structure Scalar where
  /-- Sign, exponent and fraction, most significant first. -/
  bits : UInt64
deriving DecidableEq, Inhabited

namespace Scalar

/-- Positive zero. -/
def zero : Scalar := ⟨0⟩

/-- Bytes that a scalar takes in a record. -/
def byteWidth : Nat := 8

/-! ## Parts -/

/-- The sign bit is set. -/
def isNegative (x : Scalar) : Bool := x.bits ≥ 0x8000000000000000

/-- All bits but the sign. -/
def magnitude (x : Scalar) : Nat := x.bits.toNat % Nat.pow 2 63

/-- The magnitude that the infinities share. Above it lie the NaNs. -/
def infiniteMagnitude : Nat := 0x7ff0000000000000

/-- Not a number: no value, whatever the other bits say. -/
def isNaN (x : Scalar) : Bool := infiniteMagnitude < x.magnitude

/-- One of the two infinities. -/
def isInfinite (x : Scalar) : Bool := x.magnitude = infiniteMagnitude

/-- One of the two zeros. -/
def isZero (x : Scalar) : Bool := x.magnitude = 0

/-! ## Comparison -/

/-- Numeric equality: a NaN equals nothing, and `-0` equals `0`. -/
def sameValue (x y : Scalar) : Bool :=
  !x.isNaN && !y.isNaN && (x.bits == y.bits || (x.isZero && y.isZero))

/-- A scalar has the value of itself unless it is a NaN. -/
theorem sameValue_self (x : Scalar) : x.sameValue x = !x.isNaN := by
  simp [sameValue]

/-- The two zeros have the same value. -/
theorem sameValue_zeros : zero.sameValue ⟨0x8000000000000000⟩ = true := by decide

/-! ## Conversion and arithmetic -/

/-- The nearest scalar to a natural number, ties to even. -/
def ofNat (n : Nat) : Scalar := ⟨(Float.ofNat n).toBits⟩

/-- The nearest scalar to an integer, ties to even. -/
def ofInt (n : Int) : Scalar := ⟨(Float.ofInt n).toBits⟩

/-- The sum, rounded to nearest. -/
def add (x y : Scalar) : Scalar := ⟨(Float.ofBits x.bits + Float.ofBits y.bits).toBits⟩

/-- The quotient, rounded to nearest. -/
def div (x y : Scalar) : Scalar := ⟨(Float.ofBits x.bits / Float.ofBits y.bits).toBits⟩

instance : Add Scalar := ⟨add⟩
instance : Div Scalar := ⟨div⟩

end Scalar

end ParticleStore
