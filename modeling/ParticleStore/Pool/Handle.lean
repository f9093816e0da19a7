/-
ParticleStore.Pool.Handle — names of property slots.

A handle names one slot of one pool in one generation. Releasing a slot starts its
next generation, so a handle kept beyond the release no longer names it. The
invalid handle stands for "no slot"; no pool issues it.
-/
import ParticleStore.Report

namespace ParticleStore

/-- The identity of a pool. Pools are numbered from 1 in the order they are made. -/
structure PoolId where
  number : Nat
deriving DecidableEq, Inhabited

namespace PoolId

/-- The id of no pool, which the invalid handle carries. -/
def none : PoolId := ⟨0⟩

/-- The id for a reader: its number. -/
def text (id : PoolId) : String := toString id.number

/-- The id in a report. -/
def report (id : PoolId) : String := Report.applied "PoolId" [id.text]

end PoolId

/-- The name of a slot: the pool, the position in its table, and the generation. -/
structure Handle where
  pool : PoolId
  index : UInt32
  generation : UInt32
deriving DecidableEq

namespace Handle

/-- The handle of no slot. Its index is the one that no slot ever has. -/
def invalid : Handle := ⟨.none, 0xffffffff, 0⟩

instance : Inhabited Handle := ⟨invalid⟩

/-- Anything but the invalid handle. Only the pool can tell whether it still names a slot. -/
def isValid (h : Handle) : Bool := h ≠ invalid

/-- Move the handle out of its place: the moved handle, and what stays behind. -/
def take (h : Handle) : Handle × Handle := (h, invalid)

/-- The handle for a reader. -/
def text (h : Handle) : String :=
  if h.isValid then
    s!"PropertyHandle(pool={h.pool.text}, idx={h.index.toNat}, gen={h.generation.toNat})"
  else "PropertyHandle(invalid)"

/-- The handle in a report. -/
def report (h : Handle) : String :=
  Report.fields "PropertyHandle"
    [("pool", h.pool.report), ("index", toString h.index.toNat),
      ("generation", toString h.generation.toNat)]

end Handle

end ParticleStore
