/-
ParticleStore.Particle.Error — why an operation on a particle is refused.
-/
import ParticleStore.Bytes.Field
import ParticleStore.Pool.Error

namespace ParticleStore

/-- What is wrong with a stream. -/
inductive StreamError where
  /-- It ended before the record did. -/
  | endedEarly
  /-- It takes no more bytes. -/
  | full
  /-- Anything else. -/
  | other (detail : String)
deriving DecidableEq, Inhabited

namespace StreamError

/-- The text of the error. -/
def message : StreamError → String
  | endedEarly => "failed to fill whole buffer"
  | full => "failed to write whole buffer"
  | other detail => detail

/-- The error in a report. -/
def report : StreamError → String
  | endedEarly =>
    Report.fields "Error" [("kind", "UnexpectedEof"), ("message", Report.quoted endedEarly.message)]
  | full => Report.fields "Error" [("kind", "WriteZero"), ("message", Report.quoted full.message)]
  | other detail => Report.fields "Custom" [("kind", "Other"), ("error", Report.quoted detail)]

end StreamError

/-- Why an operation on a particle is refused. -/
inductive ParticleError where
  /-- A pool refuses. -/
  | pool (cause : PoolError)
  /-- The particle has no slot, or no pool to take one from. -/
  | noProperties
  /-- The bytes are no record, or the record has no bytes. -/
  | malformed (cause : RecordError)
  /-- `recorded` values for slots of `expected` values. -/
  | countMismatch (recorded expected : Nat)
  /-- A record with values, and no pool to hold them. -/
  | missingPool (recorded : Nat)
  /-- A stream fails. -/
  | stream (cause : StreamError)
deriving DecidableEq, Inhabited

namespace ParticleError

/-- The name of the kind of error. -/
def kind : ParticleError → String
  | pool _ => "Pool"
  | noProperties => "NoProperties"
  | malformed _ => "MalformedRecord"
  | countMismatch _ _ => "PropertyCountMismatch"
  | missingPool _ => "MissingPool"
  | stream _ => "Io"

/-- The text of an error. -/
def message : ParticleError → String
  | pool cause => "property pool error: " ++ cause.message
  | noProperties => "particle has no property slot"
  | malformed cause => "malformed particle record: " ++ cause.detail
  | countMismatch recorded expected =>
    s!"property count mismatch: record has {recorded}, pool provides {expected}"
  | missingPool recorded =>
    s!"record carries {recorded} properties but no property pool was supplied"
  | stream cause => "I/O error: " ++ cause.message

/-- The text of the error behind this one, if there is one. -/
def source? : ParticleError → Option String
  | pool cause => some cause.message
  | stream cause => some cause.message
  | _ => none

/-- The error in a report. -/
def report : ParticleError → String
  | e@(pool cause) => Report.applied e.kind [cause.report]
  | e@noProperties => e.kind
  | e@(malformed cause) => Report.fields e.kind [("detail", Report.quoted cause.detail)]
  | e@(countMismatch recorded expected) =>
    Report.fields e.kind [("recorded", toString recorded), ("expected", toString expected)]
  | e@(missingPool recorded) => Report.fields e.kind [("recorded", toString recorded)]
  | e@(stream cause) => Report.applied e.kind [cause.report]

end ParticleError

end ParticleStore
