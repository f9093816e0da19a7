/-
ParticleStore.Pool.Config — what is fixed when a pool is made.

A pool's stride, the number of its slots that may be live at once, and the number
of slots reserved from the start. The largest index of a slot is one below the
invalid handle's, so no pool has more than `2 ^ 32 - 1` slots, whatever its
configuration says.
-/
import ParticleStore.Report

namespace ParticleStore

/-- The configuration of a pool. -/
structure PoolConfig where
  /-- Scalars in every slot. May be zero. -/
  stride : Nat
  /-- Most slots that may be live at once; missing for no limit but the indices. -/
  maxSlots : Option UInt32 := none
  /-- Slots reserved when the pool is made. -/
  initialSlots : UInt32 := 0
deriving DecidableEq, Inhabited

namespace PoolConfig

/-- The largest index of a slot. -/
def maxIndex : Nat := UInt32.size - 2

/-- Most slots that may be live at once, the supply of indices included. -/
def slotLimit (c : PoolConfig) : Nat :=
  match c.maxSlots with
  | some max => min max.toNat (maxIndex + 1)
  | none => maxIndex + 1

/-- Slots that are reserved when the pool is made: never more than may be live. -/
def initialReservation (c : PoolConfig) : Nat := min c.initialSlots.toNat c.slotLimit

/-- The limit leaves every slot an index other than the invalid handle's. -/
theorem slotLimit_le (c : PoolConfig) : c.slotLimit ≤ maxIndex + 1 := by
  unfold slotLimit
  split <;> omega

/-- The configuration in a report. -/
def report (c : PoolConfig) : String :=
  Report.fields "PoolConfig"
    [("properties_per_slot", toString c.stride),
      ("max_slots", Report.optional (c.maxSlots.map fun n => toString n.toNat)),
      ("initial_slots", toString c.initialSlots.toNat)]

end PoolConfig

end ParticleStore
