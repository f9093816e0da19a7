/-
ParticleStore.Point — coordinate tuples of a fixed dimension.

A point has exactly as many coordinates as its dimension says. No geometry is
implied beyond storing, comparing and reading coordinates. Equality of points as
values is equality of all bits; `Point.sameValue` compares numerically, so a
point with a NaN coordinate does not have the same value as itself.
-/
import ParticleStore.Decimal.Notation
import ParticleStore.Fault
import ParticleStore.Report

namespace ParticleStore

/-- A point with `dim` coordinates. -/
@[ext]
structure Point (dim : Nat) where
  coords : List Scalar
  length_coords : coords.length = dim
deriving DecidableEq

namespace Point

variable {dim : Nat}

/-! ## Construction -/

/-- The point with this value at every coordinate. -/
def constant (dim : Nat) (x : Scalar) : Point dim := ⟨List.replicate dim x, List.length_replicate⟩

/-- The point with every coordinate zero. -/
def origin (dim : Nat) : Point dim := constant dim .zero

instance : Inhabited (Point dim) := ⟨origin dim⟩

/-- The point with these coordinates; none unless there are exactly `dim`. -/
def ofList? (dim : Nat) (coords : List Scalar) : Option (Point dim) :=
  if h : coords.length = dim then some ⟨coords, h⟩ else none

/-- The point whose coordinate `i` is `f i`. -/
def tabulate (dim : Nat) (f : Nat → Scalar) : Point dim :=
  ⟨(List.range dim).map f, by simp⟩

theorem ofList?_eq_some_iff {coords : List Scalar} {p : Point dim} :
    ofList? dim coords = some p ↔ p.coords = coords := by
  unfold ofList?
  split
  · exact ⟨fun h => by cases h; rfl, fun h => congrArg some (Point.ext h.symm)⟩
  · rename_i h
    exact ⟨fun e => by simp at e, fun e => absurd (e ▸ p.length_coords) h⟩

/-! ## Coordinates -/

/-- Coordinate `i`, which has to be below the dimension. -/
def get {ε : Type} (p : Point dim) (i : Nat) : Attempt ε Scalar :=
  match p.coords[i]? with
  | some x => .ok x
  | none => Attempt.halt (.index dim i)

/-- The point with coordinate `i`, which has to be below the dimension, replaced. -/
def set {ε : Type} (p : Point dim) (i : Nat) (x : Scalar) : Attempt ε (Point dim) :=
  if i < dim then
    .ok ⟨p.coords.set i x, by rw [List.length_set]; exact p.length_coords⟩
  else Attempt.halt (.index dim i)

/-- The point with a function applied to each coordinate. -/
def map (f : Scalar → Scalar) (p : Point dim) : Point dim :=
  ⟨p.coords.map f, by rw [List.length_map]; exact p.length_coords⟩

/-- All coordinates are numerically equal. -/
def sameValue (p q : Point dim) : Bool :=
  (p.coords.zip q.coords).all fun pair => pair.1.sameValue pair.2

/-! ## Text -/

/-- The point for a reader: `(1, 2.5)`. -/
def text (p : Point dim) : String := "(" ++ Report.joined (p.coords.map Scalar.text) ++ ")"

/-- The point in a report: `Point([1.0, 2.5])`. -/
def report (p : Point dim) : String :=
  Report.applied "Point" [Report.list (p.coords.map Scalar.report)]

end Point

end ParticleStore
