/-
ParticleStore.Fault — how an operation can end without a result.

An operation ends in one of three ways: with its result, with a cause that its
caller is told and can act on (`Failure.refused`), or because a condition that has
to hold did not (`Failure.broken`). Some of these conditions are on the caller's
arguments: a coordinate's position, a lattice's side. The others are the pools'
own, such as a range of scalars that has to lie inside the storage. They are tested
where they are relied on, so that "it cannot happen" is a statement about the
definitions that run.
-/

namespace ParticleStore

/-- A condition that had to hold and did not. -/
inductive Fault where
  /-- There is no element at `position` of a sequence of `length` elements. -/
  | index (length position : Nat)
  /-- A range ends at `stop` in a sequence of `length` elements. -/
  | range (stop length : Nat)
  /-- `given` values for a slot of `needed` values. -/
  | valueCount (given needed : Nat)
  /-- A remainder by zero. -/
  | zeroDivisor
  /-- A walk over a lattice without extent. -/
  | zeroSide
  /-- A release in a pool that counts no live slot. -/
  | noLiveSlot
  /-- A live slot among the slots to be used again. -/
  | liveSlotReused
  /-- A particle of a pool that does not exist. -/
  | unknownPool
  /-- An operation that had to succeed was refused; `report` describes the cause. -/
  | rejected (report : String)
deriving DecidableEq, Inhabited

/-- The text of a fault. -/
def Fault.message : Fault → String
  | index length position =>
    s!"index out of bounds: the len is {length} but the index is {position}"
  | range stop length => s!"a range ends at {stop} beyond the {length} elements there are"
  | valueCount given needed => s!"{given} values do not fill a slot of {needed}"
  | zeroDivisor => "attempt to calculate the remainder with a divisor of zero"
  | zeroSide => "lattice side must be positive"
  | noLiveSlot => "a slot is released where none is live"
  | liveSlotReused => "a live slot is used again"
  | unknownPool => "no pool at this position"
  | rejected report => s!"called `Result::unwrap()` on an `Err` value: {report}"

/-- Why an operation has no result. -/
inductive Failure (ε : Type) where
  /-- The operation was refused for a cause that is part of its contract. -/
  | refused (cause : ε)
  /-- A required condition did not hold. -/
  | broken (fault : Fault)
deriving DecidableEq

/-- Say the cause of a failure in the terms of another operation; a fault stays what it is. -/
def Failure.map {ε ε' : Type} (f : ε → ε') : Failure ε → Failure ε'
  | refused cause => refused (f cause)
  | broken fault => broken fault

/-- The result of an operation, or why there is none. -/
abbrev Attempt (ε α : Type) : Type := Except (Failure ε) α

namespace Attempt

/-- End with a cause that the caller is told. -/
def refuse {ε α : Type} (cause : ε) : Attempt ε α := .error (.refused cause)

/-- End because a required condition does not hold. -/
def halt {ε α : Type} (fault : Fault) : Attempt ε α := .error (.broken fault)

/-- Continue only if `condition` holds. -/
def require {ε : Type} (condition : Prop) [Decidable condition] (fault : Fault) : Attempt ε Unit :=
  if condition then .ok () else halt fault

/-- Say the cause of a failed attempt in the terms of another operation. -/
def mapCause {ε ε' α : Type} (f : ε → ε') : Attempt ε α → Attempt ε' α
  | .ok a => .ok a
  | .error failure => .error (failure.map f)

end Attempt

end ParticleStore
