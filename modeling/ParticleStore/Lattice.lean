/-
ParticleStore.Lattice — deterministic coordinates and values.

Point `n` of a lattice of side `s` has the base-`s` digits of `n` as its
coordinates, lowest digit first, so successive points sweep the first axis fastest
and point `s ^ dim` is point 0 again. A walk gives successive points, each with its
reference location scaled into the unit cube.
-/
import ParticleStore.Point

namespace ParticleStore.Lattice

/-- The lowest `dim` digits of `n` in base `side`, lowest first. -/
def digits : Nat → Nat → Nat → List Nat
  | 0, _, _ => []
  | dim + 1, n, side => n % side :: digits dim (n / side) side

@[simp] theorem length_digits (dim n side : Nat) : (digits dim n side).length = dim := by
  induction dim generalizing n with
  | zero => rfl
  | succ dim ih => simp [digits, ih]

/-- The point whose coordinates are the digits of `n`. -/
def site (dim n side : Nat) : Point dim := ⟨(digits dim n side).map Scalar.ofNat, by simp⟩

/-- Point `n` of the lattice. In a dimension above zero a side of zero has no digits. -/
def point {ε : Type} (dim n side : Nat) : Attempt ε (Point dim) :=
  if side = 0 ∧ 0 < dim then Attempt.halt .zeroDivisor else .ok (site dim n side)

/-! ## Walks -/

/-- One stop of a walk. -/
structure Stop (dim spacedim : Nat) where
  number : Nat
  location : Point spacedim
  /-- In the unit cube: the lattice point divided by the side. -/
  reference : Point dim
deriving DecidableEq

/-- A walk over a lattice, about to make stop `next`. -/
structure Walk where
  side : Nat
  next : Nat
deriving DecidableEq, Inhabited

namespace Walk

/-- A walk at its first stop. The side has to be positive. -/
def start {ε : Type} (side : Nat) : Attempt ε Walk :=
  if side = 0 then Attempt.halt .zeroSide else .ok ⟨side, 0⟩

/-- The next stop, and the walk after it. -/
def advance (dim spacedim : Nat) (w : Walk) : Stop dim spacedim × Walk :=
  (⟨w.next, site spacedim w.next w.side,
      (site dim w.next w.side).map fun c => c / Scalar.ofNat w.side⟩,
    { w with next := w.next + 1 })

/-- The next `count` stops, and the walk after them. -/
def stops (dim spacedim : Nat) : Nat → Walk → List (Stop dim spacedim) × Walk
  | 0, w => ([], w)
  | count + 1, w =>
    let (stop, w) := w.advance dim spacedim
    let (rest, w) := stops dim spacedim count w
    (stop :: rest, w)

/-- The walk after leaving out `count` stops. -/
def skip : Nat → Walk → Walk
  | 0, w => w
  | count + 1, w => skip count { w with next := w.next + 1 }

end Walk

/-! ## Values -/

/-- `stride` values that no other seed has: `100 * seed + i`. -/
def propertyValues (seed stride : Nat) : List Scalar :=
  (List.range stride).map fun i => Scalar.ofNat (seed * 100) + Scalar.ofNat i

end ParticleStore.Lattice
