/-
ParticleStore.Decimal.Notation — how a scalar is written.

Two notations write the same shortest digits. `DecimalStyle.plain` is for
readers: positional at every size, and a whole number has no point.
`DecimalStyle.report` is for reports on values: a whole number ends in `.0`, and
numbers below `10 ^ -4` or from `10 ^ 16` on are written with an exponent.
-/
import ParticleStore.Decimal.Shortest

namespace ParticleStore

/-- The decisions of a notation. A scalar whose leading digit stands for
`10 ^ e` is written with an exponent if `e` is below `positionalFrom` or not
below `positionalBelow`; a missing bound is no bound. -/
structure DecimalStyle where
  positionalFrom : Option Int
  positionalBelow : Option Int
  /-- Written after a whole number in positional form. -/
  wholeEnding : String
deriving DecidableEq

namespace DecimalStyle

/-- Always positional, no point in a whole number. -/
def plain : DecimalStyle := ⟨none, none, ""⟩

/-- Positional from `10 ^ -4` up to `10 ^ 16`, and a whole number ends in `.0`. -/
def report : DecimalStyle := ⟨some (-4), some 16, ".0"⟩

/-- Whether a number with leading digit at `10 ^ e` is written without exponent. -/
def positional (style : DecimalStyle) (e : Int) : Bool :=
  style.positionalFrom.all (fun bound => bound ≤ e) &&
    style.positionalBelow.all (fun bound => e < bound)

end DecimalStyle

namespace Decimal

/-- A run of `n` zeros. -/
def zeros (n : Nat) : String := String.ofList (List.replicate n '0')

/-- The digits with the point at its place: `12`, `1.2`, `0.012`, `1200`. -/
def positionalText (d : Decimal) (wholeEnding : String) : String :=
  let digits := (toString d.digits).toList
  if 0 ≤ d.exponent then
    String.ofList digits ++ zeros d.exponent.toNat ++ wholeEnding
  else
    let places := (-d.exponent).toNat
    if places < digits.length then
      let whole := digits.length - places
      String.ofList (digits.take whole) ++ "." ++ String.ofList (digits.drop whole)
    else
      "0." ++ zeros (places - digits.length) ++ String.ofList digits

/-- The power of ten that the leading digit stands for. -/
def leadingExponent (d : Decimal) : Int :=
  d.exponent + ((toString d.digits).length : Int) - 1

/-- The digits with a point after the first, and the exponent: `1e16`, `1.5e-5`. -/
def exponentText (d : Decimal) : String :=
  match (toString d.digits).toList with
  | [] => ""
  | [c] => String.ofList [c] ++ "e" ++ toString d.leadingExponent
  | c :: more => String.ofList (c :: '.' :: more) ++ "e" ++ toString d.leadingExponent

/-- A decimal number in the given notation. -/
def render (style : DecimalStyle) (d : Decimal) : String :=
  if style.positional d.leadingExponent then d.positionalText style.wholeEnding else d.exponentText

end Decimal

namespace Scalar

/-- The scalar in the given notation. A NaN has no sign and no payload in text;
zeros and infinities keep their sign. -/
def render (style : DecimalStyle) (x : Scalar) : String :=
  if x.isNaN then "NaN"
  else
    let sign := if x.isNegative then "-" else ""
    if x.isInfinite then sign ++ "inf"
    else if x.isZero then sign ++ "0" ++ style.wholeEnding
    else sign ++ (Decimal.shortest x).render style

/-- The scalar for a reader: `1`, `2.5`, `-0`. -/
def text (x : Scalar) : String := x.render .plain

/-- The scalar in a report: `1.0`, `2.5`, `1e16`. -/
def report (x : Scalar) : String := x.render .report

end Scalar

end ParticleStore
