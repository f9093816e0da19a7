/-
ParticleStore.Particle.Basic — particles.

A particle owns its coordinates and its id, and at most one slot of one pool for
its property values. The pool is named by its position in the world. The particle
holds a slot when it has a pool and its handle is not the invalid one; whether that
handle still names a live slot only the pool can tell.
-/
import ParticleStore.Particle.Error
import ParticleStore.Record.Basic
import ParticleStore.World

namespace ParticleStore

/-- A particle in a space of `spacedim` dimensions whose reference frame has `dim`. -/
structure Particle (dim spacedim : Nat) where
  location : Point spacedim
  reference : Point dim
  id : ParticleId
  /-- The pool that the particle takes its slot from. -/
  pool : Option Nat
  handle : Handle
deriving DecidableEq

namespace Particle

variable {dim spacedim : Nat}

/-- A particle with these coordinates and this id, no pool and no slot. -/
def bare (location : Point spacedim) (reference : Point dim) (id : ParticleId) :
    Particle dim spacedim :=
  ⟨location, reference, id, none, .invalid⟩

/-- A particle at the origin with id 0, no pool and no slot. -/
def atOrigin : Particle dim spacedim := bare (.origin spacedim) (.origin dim) ⟨0⟩

instance : Inhabited (Particle dim spacedim) := ⟨atOrigin⟩

/-! ## The slot -/

/-- The pool and the handle, if the particle holds a slot. -/
def slot? (p : Particle dim spacedim) : Option (Nat × Handle) :=
  match p.pool with
  | none => none
  | some i => if p.handle.isValid then some (i, p.handle) else none

/-- The particle holds a slot. -/
def hasProperties (p : Particle dim spacedim) : Bool := p.slot?.isSome

/-- How many property values the particle has: its pool's stride if it holds a slot. -/
def propertyCount (w : World) (p : Particle dim spacedim) : Nat :=
  match p.slot? with
  | none => 0
  | some (i, _) => ((w.pool? i).map Pool.stride).getD 0

/-- The bytes that the particle's record takes. -/
def byteWidth (w : World) (p : Particle dim spacedim) : Nat :=
  Record.byteWidth dim spacedim (p.propertyCount w)

/-- Move the particle out of its place: the moved particle with the slot, and the one
that stays behind without it. -/
def take (p : Particle dim spacedim) : Particle dim spacedim × Particle dim spacedim :=
  let (moved, left) := p.handle.take
  ({ p with handle := moved }, { p with handle := left })

/-! ## Keys of spatial indices -/

/-- The key of an index over a reference frame. -/
def referenceKey (p : Particle dim spacedim) : Point dim := p.reference

/-- The key of an index over the whole space. -/
def locationKey (p : Particle dim spacedim) : Point spacedim := p.location

/-- The key that an index uses unless told otherwise: the location in the reference frame. -/
def spatialKey (p : Particle dim spacedim) : Point dim := p.referenceKey

/-! ## Text -/

/-- The id of the particle's pool. -/
def poolId? (w : World) (p : Particle dim spacedim) : Option PoolId :=
  (p.pool.bind w.pool?).map Pool.id

/-- The particle in a report. -/
def report (w : World) (p : Particle dim spacedim) : String :=
  Report.fields "Particle"
    [("id", p.id.report), ("location", p.location.report),
      ("reference_location", p.reference.report),
      ("pool", Report.optional ((p.poolId? w).map PoolId.report)),
      ("properties", p.handle.report)]

end Particle

end ParticleStore
