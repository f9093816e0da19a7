/-
ParticleStore.Population — populations of particles on a cubic lattice.

Particle `i` of a population stands at the lattice point with coordinates `i % side`,
`i / side % side` and `i / side ^ 2`, has the id `i`, and carries the values
`i * stride`, `i * stride + 1`, … in a slot of the population's pool.
-/
import ParticleStore.Batch

namespace ParticleStore.Population

/-- The least side, from 1 on, of a cube that holds `n` points. -/
def side (n : Nat) : Nat :=
  ((List.range (n + 1)).find? fun s => 0 < s && n ≤ s * s * s).getD 1

/-- The lattice coordinates of particle `i`. -/
def coordinates (side i : Nat) : List Nat := [i % side, i / side % side, i / (side * side)]

/-- The location of particle `i`. -/
def location (side i : Nat) : Point 3 :=
  ⟨(coordinates side i).map Scalar.ofNat, rfl⟩

/-- The values of particle `i`. -/
def values (stride i : Nat) : List Scalar :=
  (List.range stride).map fun k => Scalar.ofNat (i * stride + k)

/-- A result that has to be there: an error of its own is a broken condition. -/
def insist {α : Type} : Attempt ParticleError α → Attempt ParticleError α
  | .error (.refused cause) => Attempt.halt (.rejected cause.report)
  | result => result

/-- An action that has to succeed. -/
def insistOn {α : Type} (action : Action ParticleError α) : Action ParticleError α :=
  ExceptT.mk (insist <$> action.run)

/-- Particle `i` on a lattice of the given side, with values in a slot of the pool. -/
def particle (pool side i : Nat) : Action ParticleError (Particle 3 3) := do
  let location := location side i
  let bare := Particle.bare location (location.map fun c => c / Scalar.ofNat side) ⟨UInt64.ofNat i⟩
  let p ← insistOn (bare.moveTo pool)
  let stride ← World.stride pool
  if stride = 0 then return p
  else insistOn (p.setValues (values stride i))

/-- Particles `first`, `first + 1`, …, `count` of them. -/
def particlesFrom (pool side : Nat) : Nat → Nat → Action ParticleError (List (Particle 3 3))
  | _, 0 => return []
  | first, count + 1 => do
    let p ← particle pool side first
    return p :: (← particlesFrom pool side (first + 1) count)

/-- A population of `n` particles on a lattice of the given side, which is at least 1. -/
def onLattice (pool side n : Nat) : Action ParticleError (List (Particle 3 3)) := do
  Action.change fun w => w.reserve pool n
  particlesFrom pool side 0 n

/-- A population of `n` particles in the smallest cube. -/
def particles (pool n : Nat) : Action ParticleError (List (Particle 3 3)) :=
  onLattice pool (side n) n

/-- The records of a population of `n` particles with slots of `stride` values. -/
def encoded (n stride : Nat) : Attempt ParticleError Bytes :=
  let (pool, w) := World.addPool {} { stride }
  match (particles pool n).run w with
  | (.error failure, _) => .error failure
  | (.ok made, w) => insist (Batch.encode w made)

end ParticleStore.Population
