/-
ParticleStore.Pool.Basic — the state of a property pool.

A pool holds slots of equally many scalars, its stride. The scalars of all slots
stand in one list, those of slot `i` from position `i * stride` on. A slot is
live while a handle names it; a released slot waits on a stack and is used again
before the table of slots grows. Views are windows on the scalars that stay open
over other operations: any number of read views, or a single write view. This
module holds the state, the test of handles, and the two accesses to scalars on
which everything else is built.
-/
import ParticleStore.Fault
import ParticleStore.Scalar
import ParticleStore.Pool.Config
import ParticleStore.Pool.Error
import ParticleStore.Pool.Handle

namespace ParticleStore

/-- One entry of a pool's table. -/
structure Slot where
  /-- Counts the releases, round and round in 32 bits. -/
  generation : UInt32
  live : Bool
deriving DecidableEq, Inhabited

/-- A property pool. -/
structure Pool where
  id : PoolId
  config : PoolConfig
  slots : List Slot := []
  /-- The released slots; the one released last is used first. -/
  free : List UInt32 := []
  /-- How many slots are live. -/
  live : Nat := 0
  /-- The scalars of all slots, slot after slot. -/
  scalars : List Scalar := []
  /-- Slots that there is room for without taking more memory. -/
  reserved : Nat := 0
  /-- Open read views. -/
  readers : Nat := 0
  /-- Open write views. -/
  writers : Nat := 0
deriving DecidableEq

namespace Pool

/-- A pool without slots. -/
def empty (id : PoolId) (config : PoolConfig) : Pool := { id, config }

instance : Inhabited Pool := ⟨empty .none default⟩

/-- Scalars in every slot. -/
def stride (p : Pool) : Nat := p.config.stride

/-- Some view is open. -/
def isViewed (p : Pool) : Bool := 0 < p.readers + p.writers

/-- Slots in the table, live or not. -/
def totalSlots (p : Pool) : Nat := p.slots.length

/-- Slots to be used again before the table grows. -/
def freeSlots (p : Pool) : Nat := p.free.length

/-- Whether the table can take `n` slots without more memory. -/
def hasCapacity (p : Pool) (n : Nat) : Bool := n ≤ max p.reserved p.totalSlots

/-! ## Handles -/

/-- The position of the live slot that a handle names. The four flaws are looked for
in this order: the invalid handle, another pool's handle, no slot at the index, and
a slot that is not live or is in another generation. -/
def locate (p : Pool) (h : Handle) : Except HandleFlaw Nat :=
  if !h.isValid then .error .sentinel
  else if h.pool ≠ p.id then .error .foreignPool
  else
    match p.slots[h.index.toNat]? with
    | none => .error .outOfRange
    | some slot =>
      if slot.live && slot.generation == h.generation then .ok h.index.toNat else .error .stale

/-- A handle names a live slot of this pool. -/
def isLive (p : Pool) (h : Handle) : Bool := (p.locate h).isOk

/-- The position of the live slot that a handle has to name. -/
def demand (p : Pool) (h : Handle) : Attempt PoolError Nat :=
  match p.locate h with
  | .ok i => .ok i
  | .error flaw => Attempt.refuse (.invalidHandle flaw)

/-- No view is open. -/
def demandUnviewed (p : Pool) : Attempt PoolError Unit :=
  if p.isViewed then Attempt.refuse .storageBorrowed else .ok ()

/-- No write view is open. -/
def demandUnwritten (p : Pool) : Attempt PoolError Unit :=
  if 0 < p.writers then Attempt.refuse .storageBorrowed else .ok ()

/-! ## Scalars of a slot -/

/-- The scalars of slot `i`, which have to be there. -/
def slotValues (p : Pool) (i : Nat) : Attempt PoolError (List Scalar) := do
  let start := i * p.stride
  Attempt.require (start + p.stride ≤ p.scalars.length) (.range (start + p.stride) p.scalars.length)
  return (p.scalars.drop start).take p.stride

/-- The pool with the scalars of slot `i` replaced by as many others. -/
def setSlotValues (p : Pool) (i : Nat) (values : List Scalar) : Attempt PoolError Pool := do
  let start := i * p.stride
  Attempt.require (start + p.stride ≤ p.scalars.length) (.range (start + p.stride) p.scalars.length)
  Attempt.require (values.length = p.stride) (.valueCount values.length p.stride)
  return { p with
    scalars := p.scalars.take start ++ (values ++ p.scalars.drop (start + p.stride)) }

/-! ## Text -/

/-- The pool in a report. -/
def report (p : Pool) : String :=
  Report.fields "PropertyPool"
    [("id", p.id.report), ("properties_per_slot", toString p.stride), ("live", toString p.live),
      ("total_slots", toString p.totalSlots)]

end Pool

end ParticleStore
