/-
ParticleStore.Decimal.Shortest — the shortest decimal that reads back.

Every finite scalar stands for an interval: the real numbers that round to it.
`shortest` gives the decimal number with the fewest digits inside that interval,
and of those the one nearest to the scalar. It works from the coarsest grid of
decimals `k * 10 ^ g` downwards. On a grid with a point inside the interval one
of the scalar's two neighbours lies inside, so only those two are tried, in exact
arithmetic on natural numbers.
-/
import ParticleStore.Scalar

namespace ParticleStore

/-- The number `digits * 10 ^ exponent`. -/
structure Decimal where
  digits : Nat
  exponent : Int
deriving DecidableEq, Inhabited

/-- The real numbers that round to a scalar, all divided by the same `scale`:
from `low` to `high` with the scalar itself at `center`. -/
structure RoundingInterval where
  low : Nat
  center : Nat
  high : Nat
  scale : Nat
  /-- Whether the two ends round to the scalar too. -/
  closed : Bool
deriving DecidableEq

namespace RoundingInterval

/-- The interval of a finite nonzero scalar, sign left aside. Below a power of
two the scalars lie twice as dense, so there the lower end is half as far away;
an end is a tie, and ties go to the even fraction. -/
def ofScalar (x : Scalar) : RoundingInterval :=
  let fraction := x.magnitude % Nat.pow 2 52
  let biased := x.magnitude / Nat.pow 2 52
  let significand := if biased = 0 then fraction else fraction + Nat.pow 2 52
  let below := if fraction = 0 ∧ 1 < biased then 1 else 2
  -- a quarter of the scalar's unit is `2 ^ (max biased 1 - 1077)`
  let up := Nat.pow 2 (max biased 1 - 1077)
  let down := Nat.pow 2 (1077 - max biased 1)
  { low := (4 * significand - below) * up
    center := 4 * significand * up
    high := (4 * significand + 2) * up
    scale := down
    closed := significand % 2 = 0 }

/-- Whether `point / scale` lies inside; both sides are given multiplied by `grain`. -/
def holds (i : RoundingInterval) (grain point : Nat) : Bool :=
  if i.closed then i.low * grain ≤ point ∧ point ≤ i.high * grain
  else i.low * grain < point ∧ point < i.high * grain

/-- The nearest multiple of `10 ^ exponent` inside the interval, the upper one
on a tie; none if neither neighbour of the center is inside. -/
def pointOnGrid (i : RoundingInterval) (exponent : Int) : Option Decimal :=
  let step := i.scale * Nat.pow 10 exponent.toNat
  let grain := Nat.pow 10 (-exponent).toNat
  let center := i.center * grain
  let k := center / step
  let lower := k * step
  let upper := lower + step
  match i.holds grain lower, i.holds grain upper with
  | true, true =>
    if center - lower < upper - center then some ⟨k, exponent⟩ else some ⟨k + 1, exponent⟩
  | true, false => some ⟨k, exponent⟩
  | false, true => some ⟨k + 1, exponent⟩
  | false, false => none

/-- An exponent whose grid is coarser than the interval's upper end. -/
def coarsestExponent (i : RoundingInterval) : Int :=
  let width : Int := (Nat.log2 i.high : Int) + 1 - Nat.log2 i.scale
  if 0 ≤ width then width / 3 + 1 else width / 4 + 1

end RoundingInterval

namespace Decimal

/-- Grids that `shortest` tries: more than lie between the coarsest one and the
seventeen digits that always suffice. -/
def gridCount : Nat := 128

/-- The decimal with the fewest digits that reads back as the finite nonzero
scalar `x`, sign left aside, and of those the nearest. -/
def shortest (x : Scalar) : Decimal :=
  let i := RoundingInterval.ofScalar x
  let grids := (List.range gridCount).map fun (n : Nat) => i.coarsestExponent - n
  (grids.findSome? i.pointOnGrid).getD ⟨0, 0⟩

end Decimal

end ParticleStore
