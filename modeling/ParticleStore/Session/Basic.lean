/-
ParticleStore.Session.Basic — the state of a session.

Storing a particle under a key that is in use comes first, and then the particle
that was there is dropped, which releases its slot. A handle that is replaced is
forgotten, and its slot stays live. A step that names something that is not there
stops with an answer that says so.
-/
import ParticleStore.Session.Step

namespace ParticleStore

/-- The state of a session. -/
structure Session (dim spacedim : Nat) where
  world : World := {}
  particles : Registry (Particle dim spacedim) := {}
  handles : Registry Handle := {}
  /-- Open views, each with the position of its pool. -/
  views : Registry (Nat × View) := {}
  buffers : Registry Bytes := {}

/-- Part of a step: it changes the session, and may end the step with an answer. -/
abbrev StepM (dim spacedim : Nat) (α : Type) : Type :=
  ExceptT (Answer dim spacedim) (StateM (Session dim spacedim)) α

namespace StepM

variable {dim spacedim : Nat}

/-- End the step with an answer. -/
def stop {α : Type} (answer : Answer dim spacedim) : StepM dim spacedim α := throw answer

/-! ## Looking up -/

/-- What is there, or the end of the step. -/
def found {α : Type} (what : String) : Option α → StepM dim spacedim α
  | some a => return a
  | none => stop (.unknown what)

/-- The particle under a key. -/
def particle (key : Nat) : StepM dim spacedim (Particle dim spacedim) := do
  found "particle" ((← get).particles.find? key)

/-- The particles under keys. -/
def particles : List Nat → StepM dim spacedim (List (Particle dim spacedim))
  | [] => return []
  | key :: keys => do
    let p ← particle key
    return p :: (← particles keys)

/-- The handle under a key. -/
def keptHandle (key : Nat) : StepM dim spacedim Handle := do
  found "handle" ((← get).handles.find? key)

/-- The handle that a step names. -/
def handle : HandleName → StepM dim spacedim Handle
  | .kept key => keptHandle key
  | .ofParticle key => return (← particle key).handle

/-- The pool at a position. -/
def pool (i : Nat) : StepM dim spacedim Pool := do
  found "pool" ((← get).world.pool? i)

/-- The position of a pool, once it is sure to be there. -/
def poolPosition (i : Nat) : StepM dim spacedim Nat := do
  let _ ← pool i
  return i

/-- The view under a key, with the position of its pool. -/
def view (key : Nat) : StepM dim spacedim (Nat × View) := do
  found "view" ((← get).views.find? key)

/-- The bytes under a key; a buffer that is not there is empty. -/
def buffer (key : Nat) : StepM dim spacedim Bytes := return ((← get).buffers.find? key).getD []

/-! ## Acting -/

/-- The world as it is. -/
def world : StepM dim spacedim World := return (← get).world

/-- Act on the world, keeping the outcome as a value. -/
def act {ε α : Type} (action : Action ε α) : StepM dim spacedim (Attempt ε α) :=
  modifyGet fun s =>
    let (result, w) := action.run.run s.world
    (result, { s with world := w })

/-- Act on the world; a failure ends the step. -/
def actOnParticle {α : Type} (action : Action ParticleError α) : StepM dim spacedim α := do
  match ← act action with
  | .ok a => return a
  | .error failure => stop (.failed failure)

/-- Act on a pool; a failure ends the step. -/
def actOnPool {α : Type} (i : Nat) (f : Pool → Attempt PoolError (α × Pool)) :
    StepM dim spacedim α := do
  match ← act (World.onPool i f) with
  | .ok a => return a
  | .error failure => stop (.poolFailed failure)

/-! ## Storing -/

/-- Keep a handle under a key. -/
def keepHandle (key : Nat) (h : Handle) : StepM dim spacedim Unit :=
  modify fun s => { s with handles := s.handles.insert key h }

/-- Keep bytes under a key. -/
def keepBuffer (key : Nat) (data : Bytes) : StepM dim spacedim Unit :=
  modify fun s => { s with buffers := s.buffers.insert key data }

/-- Put a changed particle back under its key. -/
def putBack (key : Nat) (p : Particle dim spacedim) : StepM dim spacedim Unit :=
  modify fun s => { s with particles := s.particles.insert key p }

/-- Store a new particle under a key, and then drop the one that was there. -/
def store (key : Nat) (p : Particle dim spacedim) : StepM dim spacedim Unit := do
  let old := (← get).particles.find? key
  putBack key p
  match old with
  | none => return ()
  | some old => actOnParticle old.drop

/-- Store new particles under successive keys. -/
def storeAll : Nat → List (Particle dim spacedim) → StepM dim spacedim Unit
  | _, [] => return ()
  | key, p :: rest => do
    store key p
    storeAll (key + 1) rest

/-- Close the view under a key, if there is one. -/
def shutView (key : Nat) : StepM dim spacedim Bool := do
  let s ← get
  match s.views.find? key with
  | none => return false
  | some (i, v) =>
    set { s with views := s.views.erase key }
    actOnPool i fun pool => return ((), pool.closeView v)
    return true

end StepM

end ParticleStore
