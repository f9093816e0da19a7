/-
ParticleStore.Pool.Error — why a pool refuses an operation.
-/
import ParticleStore.Report

namespace ParticleStore

/-- What is wrong with a handle. -/
inductive HandleFlaw where
  /-- It is the invalid handle. -/
  | sentinel
  /-- Another pool issued it. -/
  | foreignPool
  /-- Its slot was released since it was issued. -/
  | stale
  /-- The pool has no slot at its index. -/
  | outOfRange
deriving DecidableEq, Inhabited

/-- Why a pool refuses an operation. -/
inductive PoolError where
  /-- The handle names no live slot of this pool. -/
  | invalidHandle (flaw : HandleFlaw)
  /-- One more live slot would make `requested`, but at most `capacity` may be live. -/
  | outOfResources (requested capacity : Nat)
  /-- An open view holds the values that the operation has to change or read. -/
  | storageBorrowed
deriving DecidableEq, Inhabited

namespace HandleFlaw

/-- The text of a flaw. -/
def message : HandleFlaw → String
  | sentinel => "invalid sentinel"
  | foreignPool => "issued by another pool"
  | stale => "slot already released"
  | outOfRange => "index out of range"

/-- The flaw in a report. -/
def report : HandleFlaw → String
  | sentinel => "Sentinel"
  | foreignPool => "ForeignPool"
  | stale => "Stale"
  | outOfRange => "OutOfRange"

end HandleFlaw

namespace PoolError

/-- The name of the kind of error. -/
def kind : PoolError → String
  | invalidHandle _ => "InvalidHandle"
  | outOfResources _ _ => "OutOfResources"
  | storageBorrowed => "StorageBorrowed"

/-- The text of an error. -/
def message : PoolError → String
  | invalidHandle flaw => "invalid property handle: " ++ flaw.message
  | outOfResources requested capacity =>
    s!"property pool exhausted: requested {requested} slots, capacity {capacity} slots"
  | storageBorrowed => "property storage is held by an outstanding view"

/-- The flaw of the handle, if that is the cause. -/
def flaw? : PoolError → Option HandleFlaw
  | invalidHandle flaw => some flaw
  | _ => none

/-- The error in a report. -/
def report : PoolError → String
  | e@(invalidHandle flaw) => Report.fields e.kind [("reason", flaw.report)]
  | e@(outOfResources requested capacity) =>
    Report.fields e.kind [("requested", toString requested), ("capacity", toString capacity)]
  | e@storageBorrowed => e.kind

end PoolError

end ParticleStore
