/-
ParticleStore.Event — what the library tells an observer.

Operations note a few events as they go: pools being made, reservations, values
moving between pools, batches decoded, and a release that fails. An event has a
level, a message and named fields with their texts. Nothing depends on the events
noted.
-/
import ParticleStore.Pool.Error
import ParticleStore.Pool.Handle
import ParticleStore.Record.Header

namespace ParticleStore

/-- How much an event matters. -/
inductive Level where
  | trace
  | debug
  | warn
deriving DecidableEq, Inhabited

/-- The name of a level. -/
def Level.text : Level → String
  | trace => "TRACE"
  | debug => "DEBUG"
  | warn => "WARN"

/-- Something worth noting. -/
inductive Event where
  /-- A pool is being made. -/
  | poolCreated (pool : PoolId) (stride reservation : Nat)
  /-- There is now room for so many slots. -/
  | slotsReserved (pool : PoolId) (slots : Nat)
  /-- A reservation was more than can be addressed. -/
  | reservationSkipped (pool : PoolId) (slots : Nat)
  /-- A particle's values moved to another slot. -/
  | propertiesMigrated (particle : ParticleId) (source target : PoolId)
  /-- All records of a buffer became particles. -/
  | batchDecoded (count : Nat)
  /-- A particle's slot was no longer its own when it was to be released. -/
  | releaseFailed (particle : ParticleId) (error : PoolError)
deriving DecidableEq, Inhabited

namespace Event

/-- How much the event matters. -/
def level : Event → Level
  | poolCreated .. | slotsReserved .. | reservationSkipped .. => .debug
  | propertiesMigrated .. | batchDecoded .. => .trace
  | releaseFailed .. => .warn

/-- The message of an event. -/
def message : Event → String
  | poolCreated .. => "creating property pool"
  | slotsReserved .. => "reserved property slots"
  | reservationSkipped .. => "reservation skipped"
  | propertiesMigrated .. => "migrated particle properties"
  | batchDecoded .. => "decoded particle batch"
  | releaseFailed .. => "failed to release property slot"

/-- The fields of an event, each with its text. -/
def fields : Event → List (String × String)
  | poolCreated pool stride reservation =>
    [("pool", pool.text), ("stride", toString stride), ("reserve", toString reservation)]
  | slotsReserved pool slots => [("pool", pool.text), ("slots", toString slots)]
  | reservationSkipped pool slots => [("pool", pool.text), ("slots", toString slots)]
  | propertiesMigrated particle source target =>
    [("particle", particle.text), ("from", source.text), ("to", target.text)]
  | batchDecoded count => [("count", toString count)]
  | releaseFailed particle error => [("particle", particle.text), ("error", error.message)]

end Event

end ParticleStore
