/-
ParticleStore.Particle.Properties — a particle's property values and their slot.

A particle gets a slot when it is first given values, keeps it while values are
written, and gives it back when it drops it or goes away. When a particle moves to
another pool its values go along: the new slot is filled before the old one is
released, and given back if the old one turns out not to be the particle's any more.
-/
import ParticleStore.Particle.Basic

namespace ParticleStore

namespace World

/-- The stride of a pool, which has to exist. -/
def stride {ε : Type} (i : Nat) : Action ε Nat :=
  Action.query fun w => return (← w.pool i).stride

/-- Allocate a slot of a pool that holds these values; a slot whose values cannot be
written is released again. -/
def allocateFilled (i : Nat) (values : List Scalar) : Action ParticleError Handle := do
  let h ← (allocate i).mapCause .pool
  match ← (setValues i h values).outcome with
  | .ok () => return h
  | .error cause =>
    let _ ← (release i h).outcome
    Action.refuse (.pool cause)

end World

namespace Particle

variable {dim spacedim : Nat}

/-! ## Reading and writing values -/

/-- The particle's property values. -/
def values (w : World) (p : Particle dim spacedim) : Attempt ParticleError (List Scalar) :=
  match p.slot? with
  | none => Attempt.refuse .noProperties
  | some (i, h) => Attempt.mapCause .pool do
    let pool ← w.pool i
    pool.values h

/-- Write over the front of the particle's values: the values afterwards. -/
def overwrite (p : Particle dim spacedim) (new : List Scalar) :
    Action ParticleError (List Scalar) :=
  match p.slot? with
  | none => Action.refuse .noProperties
  | some (i, h) => (World.overwrite i h new).mapCause .pool

/-- Give the particle these values, with a slot of its pool if it has none. -/
def setValues (p : Particle dim spacedim) (new : List Scalar) :
    Action ParticleError (Particle dim spacedim) := do
  match p.pool with
  | none => Action.refuse .noProperties
  | some i =>
    let stride ← World.stride i
    if new.length ≠ stride then
      Action.refuse (.countMismatch new.length stride)
    else if p.handle.isValid then
      (World.setValues i p.handle new).mapCause .pool
      return p
    else
      return { p with handle := ← World.allocateFilled i new }

/-! ## Giving the slot back -/

/-- Release the particle's slot, if it holds one. If the slot is not the particle's any
more, nothing is released and the handle is forgotten, with a note. -/
def releaseSlot {ε : Type} (p : Particle dim spacedim) : Action ε (Particle dim spacedim) := do
  match p.slot? with
  | none => return p
  | some (i, h) =>
    match ← (World.release i h).outcome with
    | .ok left => return { p with handle := left }
    | .error cause =>
      Action.note (.releaseFailed p.id cause)
      return { p with handle := .invalid }

/-- End a particle: its slot is released. -/
def drop {ε : Type} (p : Particle dim spacedim) : Action ε Unit :=
  discard p.releaseSlot

/-- End particles, the first one first. -/
def dropAll {ε : Type} : List (Particle dim spacedim) → Action ε Unit
  | [] => return ()
  | p :: rest => do
    p.drop
    dropAll rest

/-! ## Moving between pools -/

/-- Make the pool at a position the particle's pool, and move its values there if it
holds a slot. -/
def moveTo (p : Particle dim spacedim) (target : Nat) :
    Action ParticleError (Particle dim spacedim) := do
  let targetPool ← Action.query fun w => w.pool target
  match p.slot? with
  | none => return { p with pool := some target }
  | some (i, h) =>
    let sourcePool ← Action.query fun w => w.pool i
    if sourcePool.stride ≠ targetPool.stride then
      Action.refuse (.countMismatch sourcePool.stride targetPool.stride)
    else
      let values ← (World.values i h).mapCause .pool
      let moved ← World.allocateFilled target values
      match ← (World.release i h).outcome with
      | .error cause =>
        let _ ← (World.release target moved).outcome
        Action.refuse (.pool cause)
      | .ok _ =>
        Action.note (.propertiesMigrated p.id sourcePool.id targetPool.id)
        return { p with pool := some target, handle := moved }

end Particle

end ParticleStore
