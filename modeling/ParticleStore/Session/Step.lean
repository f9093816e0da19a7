/-
ParticleStore.Session.Step — what can be asked of a session, and what it answers.

A session keeps pools in the order they were made, and particles, handles, views
and buffers under keys of the caller's choice. A step names what it works on by
these positions and keys. An answer is the result of the step, or the cause for
which it was refused; it shows everything that the operation gives back.
-/
import ParticleStore.Batch
import ParticleStore.Session.Registry

namespace ParticleStore

/-- A handle kept under a key, or the handle of the particle under a key. -/
inductive HandleName where
  | kept (key : Nat)
  | ofParticle (key : Nat)
deriving DecidableEq, Inhabited

/-- A step of a session over particles of the given dimensions. -/
inductive Step (dim spacedim : Nat) where
  -- Pools
  | makePool (config : PoolConfig)
  | takePoolId
  | reserve (pool n : Nat)
  | hasCapacity (pool n : Nat)
  | allocate (pool dest : Nat)
  | duplicate (pool : Nat) (h : HandleName) (dest : Nat)
  | release (pool h : Nat)
  | readSlot (pool : Nat) (h : HandleName)
  | writeSlot (pool : Nat) (h : HandleName) (values : List Scalar)
  | isLive (pool : Nat) (h : HandleName)
  | reportPool (pool : Nat)
  -- Handles
  | forge (dest : Nat) (handle : Handle)
  | shareHandle (h : HandleName) (dest : Nat)
  | takeHandle (h dest : Nat)
  | describeHandle (h : HandleName)
  | sameHandle (h : HandleName) (other : Nat)
  -- Views
  | openView (dest pool : Nat) (h : HandleName) (writable : Bool)
  | readView (v : Nat)
  | writeView (v : Nat) (values : List Scalar)
  | closeView (v : Nat)
  -- Buffers
  | setBuffer (b : Nat) (data : Bytes)
  | truncateBuffer (b n : Nat)
  | patchBuffer (b start : Nat) (data : Bytes)
  | appendBuffer (b dest : Nat)
  | readBuffer (b : Nat)
  -- Particles
  | make (p : Nat)
  | makeAt (p : Nat) (location : Point spacedim) (reference : Point dim) (id : ParticleId)
  | decode (p b : Nat) (pool : Option Nat)
  | copy (p dest : Nat)
  | copyFrom (p source : Nat)
  | take (p dest : Nat)
  | drop (p : Nat)
  | encode (p b : Nat)
  | update (p b : Nat)
  | save (p b : Nat) (chunk room : Option Nat)
  | load (p b : Nat) (chunk : Option Nat)
  | setLocation (p : Nat) (location : Point spacedim)
  | setReference (p : Nat) (reference : Point dim)
  | setId (p : Nat) (id : ParticleId)
  | releaseSlot (p : Nat)
  | look (p : Nat)
  | moveTo (p pool : Nat)
  | setValues (p : Nat) (values : List Scalar)
  | setValuesFromView (p v : Nat)
  | overwrite (p : Nat) (values : List Scalar)
  | report (p : Nat)
  | keys (p : Nat)
  -- Batches
  | encodeBatch (particles : List Nat) (b : Nat)
  | decodeBatch (b : Nat) (pool : Option Nat) (first : Nat)

/-- Everything that can be seen of a particle. -/
structure Snapshot (dim spacedim : Nat) where
  location : Point spacedim
  reference : Point dim
  id : ParticleId
  pool : Option PoolId
  handle : Handle
  hasProperties : Bool
  propertyCount : Nat
  byteWidth : Nat
  values : Attempt ParticleError (List Scalar)

/-- What a particle shows. -/
def Particle.snapshot {dim spacedim : Nat} (w : World) (p : Particle dim spacedim) :
    Snapshot dim spacedim where
  location := p.location
  reference := p.reference
  id := p.id
  pool := p.poolId? w
  handle := p.handle
  hasProperties := p.hasProperties
  propertyCount := p.propertyCount w
  byteWidth := p.byteWidth w
  values := p.values w

/-- The answer to a step. -/
inductive Answer (dim spacedim : Nat) where
  /-- Done, and nothing to tell. -/
  | done
  /-- The step names something that is not there. -/
  | unknown (what : String)
  /-- A pool operation gave no result. -/
  | poolFailed (failure : Failure PoolError)
  /-- A particle operation gave no result. -/
  | failed (failure : Failure ParticleError)
  | flag (value : Bool)
  | text (value : String)
  | scalars (values : List Scalar)
  | bytes (data : Bytes)
  | poolId (id : PoolId)
  | poolMade (id : PoolId) (config : PoolConfig)
  /-- A handle that was issued, made or moved to a key. -/
  | handle (h : Handle)
  /-- The outcome of a release, and the handle in its place afterwards. -/
  | released (outcome : Attempt PoolError Unit) (left : Handle)
  /-- A handle moved out of its place, and whether a valid one stayed behind. -/
  | handleTaken (moved : Handle) (leftValid : Bool)
  | handleFacts (h : Handle)
  /-- The outcome of reading or writing a buffer, and the bytes in it afterwards. -/
  | transferred (outcome : Attempt ParticleError Unit) (length : Nat)
  /-- As `transferred`, with the bytes that the records were expected to take. -/
  | batchEncoded (outcome : Attempt ParticleError Unit) (expected length : Nat)
  | batchDecoded (particles : List (Snapshot dim spacedim)) (length : Nat)
  | keys (spatial reference : Point dim) (location : Point spacedim)

end ParticleStore
