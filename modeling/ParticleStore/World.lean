/-
ParticleStore.World — all pools, and the operations that work on them.

Particles share pools, so an operation on a particle is an action on the world that
holds them. An action that fails keeps the world as it was when it failed; whatever
it had changed until then stays changed unless it is taken back. Actions on one
pool fail before they change it.
-/
import ParticleStore.Event
import ParticleStore.Pool.Reservation
import ParticleStore.Pool.Slots
import ParticleStore.Pool.View

namespace ParticleStore

/-- All pools, the next pool's number, and the events noted so far. -/
structure World where
  /-- The pools in the order they were made. -/
  pools : List Pool := []
  /-- The number that the next pool id takes. -/
  nextId : Nat := 1
  /-- The events noted, oldest first. -/
  events : List Event := []
deriving DecidableEq, Inhabited

/-- An operation on the world that may fail. -/
abbrev Action (ε α : Type) : Type := ExceptT (Failure ε) (StateM World) α

namespace Action

variable {ε ε' α : Type}

/-- The result of an attempt. -/
def ofAttempt (a : Attempt ε α) : Action ε α := ExceptT.mk (pure a)

/-- Fail with a cause that the caller is told. -/
def refuse (cause : ε) : Action ε α := ofAttempt (Attempt.refuse cause)

/-- Say the cause of a failed action in the terms of another operation. -/
def mapCause (f : ε → ε') (action : Action ε α) : Action ε' α :=
  ExceptT.mk ((Attempt.mapCause f) <$> action.run)

/-- The outcome of an action, kept as a value. A broken condition is no outcome. -/
def outcome (action : Action ε α) : Action ε' (Except ε α) :=
  ExceptT.mk do
    match ← action.run with
    | .ok a => return .ok (.ok a)
    | .error (.refused cause) => return .ok (.error cause)
    | .error (.broken fault) => return .error (.broken fault)

/-- What an observer of the world sees. -/
def query (f : World → Attempt ε α) : Action ε α :=
  ExceptT.mk fun w => (f w, w)

/-- Change the world without fail. -/
def change (f : World → World) : Action ε Unit :=
  ExceptT.mk fun w => (.ok (), f w)

/-- Note an event. -/
def note (e : Event) : Action ε Unit :=
  change fun w => { w with events := w.events ++ [e] }

end Action

namespace World

/-! ## Pools -/

/-- The pool at a position. -/
def pool? (w : World) (i : Nat) : Option Pool := w.pools[i]?

/-- The pool at a position, which has to be there. -/
def pool {ε : Type} (w : World) (i : Nat) : Attempt ε Pool :=
  match w.pool? i with
  | some p => .ok p
  | none => Attempt.halt .unknownPool

/-- The world with another pool at a position. -/
def setPool (w : World) (i : Nat) (p : Pool) : World := { w with pools := w.pools.set i p }

/-- Change the pool at a position; an attempt that fails changes nothing. -/
def onPool {α : Type} (i : Nat) (f : Pool → Attempt PoolError (α × Pool)) : Action PoolError α :=
  ExceptT.mk fun w =>
    match w.pool i with
    | .error failure => (.error failure, w)
    | .ok p =>
      match f p with
      | .error failure => (.error failure, w)
      | .ok (a, p) => (.ok a, w.setPool i p)

/-- Allocate a slot in a pool. -/
def allocate (i : Nat) : Action PoolError Handle := onPool i Pool.allocate

/-- Allocate a copy of a slot in its pool. -/
def duplicate (i : Nat) (h : Handle) : Action PoolError Handle := onPool i (·.duplicate h)

/-- Release a slot of a pool: what its handle's place then holds. -/
def release (i : Nat) (h : Handle) : Action PoolError Handle := onPool i (·.release h)

/-- Give a slot of a pool other values. -/
def setValues (i : Nat) (h : Handle) (values : List Scalar) : Action PoolError Unit :=
  onPool i fun p => return ((), ← p.setValues h values)

/-- Write over the front of a slot's values: the values afterwards. -/
def overwrite (i : Nat) (h : Handle) (values : List Scalar) : Action PoolError (List Scalar) :=
  onPool i (·.overwrite h values)

/-- The values of a slot of a pool. -/
def values (i : Nat) (h : Handle) : Action PoolError (List Scalar) :=
  Action.query fun w => do
    let p ← w.pool i
    p.values h

/-! ## Making pools -/

/-- Take the next pool id. -/
def takeId (w : World) : PoolId × World := (⟨w.nextId⟩, { w with nextId := w.nextId + 1 })

/-- Reserve slots in the pool at a position, with a note of what came of it. -/
def reserve (w : World) (i n : Nat) : World :=
  match w.pool? i with
  | none => w
  | some p =>
    let events : List Event := match p.reservation n with
      | .idle => []
      | .made slots => [.slotsReserved p.id slots]
      | .skipped slots => [.reservationSkipped p.id slots]
    { w.setPool i (p.reserve n) with events := w.events ++ events }

/-- Make a pool with its initial reservation: its position, and the world with it. -/
def addPool (w : World) (config : PoolConfig) : Nat × World :=
  let (id, w) := w.takeId
  let i := w.pools.length
  let w := { w with
    pools := w.pools ++ [Pool.empty id config]
    events := w.events ++ [Event.poolCreated id config.stride config.initialReservation] }
  (i, w.reserve i config.initialReservation)

end World

end ParticleStore
