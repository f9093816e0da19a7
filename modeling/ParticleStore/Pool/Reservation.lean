/-
ParticleStore.Pool.Reservation — memory taken ahead of use.

Reserving changes nothing but the number of slots that there is room for. It
counts slots in total, clamped to the pool's limit. A reservation that no table can
hold, or that comes while a view is open, is passed over in silence; one whose
scalars are more bytes than can be addressed is passed over with a note.
-/
import ParticleStore.Pool.Basic

namespace ParticleStore

/-- What a request to reserve comes to. -/
inductive Reservation where
  /-- Nothing to do, or nothing that can be done. -/
  | idle
  /-- Room for so many slots in total. -/
  | made (slots : Nat)
  /-- More bytes than can be addressed. -/
  | skipped (slots : Nat)
deriving DecidableEq, Inhabited

namespace Pool

/-- The largest number of bytes that can be addressed as one piece. -/
def maxBytes : Nat := Nat.pow 2 63 - 1

/-- What a request for room for `n` slots in total comes to. -/
def reservation (p : Pool) (n : Nat) : Reservation :=
  let slots := min n p.config.slotLimit
  let additional := slots - p.totalSlots
  if additional = 0 then .idle
  else if UInt64.size ≤ additional * p.stride then .idle
  else if p.isViewed then .idle
  else
    let scalars := p.scalars.length + additional * p.stride
    if maxBytes < scalars * Scalar.byteWidth then .skipped slots else .made slots

/-- The pool after a request for room for `n` slots in total. -/
def reserve (p : Pool) (n : Nat) : Pool :=
  match p.reservation n with
  | .made slots => { p with reserved := max p.reserved slots }
  | _ => p

end Pool

end ParticleStore
