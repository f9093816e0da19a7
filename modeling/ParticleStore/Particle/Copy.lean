/-
ParticleStore.Particle.Copy — copying particles.

A copy shares the pool of its source but never its slot. Copying over a particle
that holds a slot of the same pool uses that slot again; in every other case the new
slot is taken before the old one is released, so a copy that fails changes nothing.
-/
import ParticleStore.Particle.Properties

namespace ParticleStore.Particle

variable {dim spacedim : Nat}

/-- The particle holds a slot of the pool at a position. -/
def holdsSlotOf (p : Particle dim spacedim) (i : Nat) : Bool :=
  p.slot?.any fun slot => slot.1 == i

/-- A copy of the particle, with a slot of its own if the particle holds one. -/
def copy (p : Particle dim spacedim) : Action ParticleError (Particle dim spacedim) := do
  match p.slot? with
  | none => return { p with handle := .invalid }
  | some (i, h) => return { p with handle := ← (World.duplicate i h).mapCause .pool }

/-- The particle `p` overwritten with a copy of `source`. -/
def copyFrom (p source : Particle dim spacedim) :
    Action ParticleError (Particle dim spacedim) := do
  match source.slot? with
  | none =>
    let p ← p.releaseSlot
    return { source with handle := p.handle }
  | some (i, h) =>
    if p.holdsSlotOf i then
      let values ← (World.values i h).mapCause .pool
      (World.setValues i p.handle values).mapCause .pool
      return { source with handle := p.handle }
    else
      let copy ← (World.duplicate i h).mapCause .pool
      let _ ← p.releaseSlot
      return { source with handle := copy }

end ParticleStore.Particle
