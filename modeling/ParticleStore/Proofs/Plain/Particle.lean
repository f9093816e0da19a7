/-
ParticleStore.Proofs.Plain.Particle — particles that own their values.

A plain particle has its values to itself, as one of its parts. A plain pool has no
slots: it is the stride and the limit for particles of the pool, how many of them have
values, and how many views are open. There are no handles, no table and no scalars that
two particles share, so nothing has to be copied, cleared or used again. The operations
are those of particles with pools: each is refused for the causes listed, the first one
found, and otherwise gives the particle and the pools afterwards.
-/
import ParticleStore.Proofs.Attempt
import ParticleStore.Particle.Transfer

namespace ParticleStore

/-- A pool without slots. -/
structure PlainPool where
  id : PoolId
  stride : Nat
  limit : Nat
  /-- How many particles have values in the pool. -/
  live : Nat := 0
  readers : Nat := 0
  writers : Nat := 0
deriving DecidableEq

namespace PlainPool

/-- Some view is open. -/
def viewed? (p : PlainPool) : Option PoolError :=
  if 0 < p.readers + p.writers then some .storageBorrowed else none

/-- A write view is open. -/
def written? (p : PlainPool) : Option PoolError :=
  if 0 < p.writers then some .storageBorrowed else none

/-- The limit is reached. -/
def full? (p : PlainPool) : Option PoolError :=
  if p.limit ≤ p.live then some (.outOfResources (p.live + 1) p.limit) else none

/-- No particle more can have values. -/
def noRoom? (p : PlainPool) : Option PoolError := p.viewed?.or p.full?

/-- The pool with one more view of a kind. -/
def opened (writable : Bool) (p : PlainPool) : PlainPool :=
  if writable then { p with writers := p.writers + 1 } else { p with readers := p.readers + 1 }

/-- The pool with one view of a kind less. -/
def closed (writable : Bool) (p : PlainPool) : PlainPool :=
  if writable then { p with writers := p.writers - 1 } else { p with readers := p.readers - 1 }

end PlainPool

/-- All pools, in the order in which they were made. -/
abbrev PlainPools : Type := List PlainPool

namespace PlainPools

/-- The first cause that a pool has to refuse something; a missing pool has none. -/
def check (pools : PlainPools) (i : Nat) (cause : PlainPool → Option PoolError) :
    Option ParticleError :=
  ((pools[i]?).bind cause).map .pool

/-- The number of values that a particle of a pool has. -/
def stride (pools : PlainPools) (i : Nat) : Nat := ((pools[i]?).map PlainPool.stride).getD 0

/-- One more particle of a pool has values. -/
def taken (pools : PlainPools) (i : Nat) : PlainPools :=
  pools.modify i fun p => { p with live := p.live + 1 }

/-- One particle less of a pool has values. -/
def released (pools : PlainPools) (i : Nat) : PlainPools :=
  pools.modify i fun p => { p with live := p.live - 1 }

end PlainPools

/-- The values of a particle. -/
structure OwnValues where
  values : List Scalar
  /-- A write view of the values is open. -/
  lent : Bool := false
deriving DecidableEq

/-- A particle that owns its values. -/
structure PlainParticle (dim spacedim : Nat) where
  location : Point spacedim
  reference : Point dim
  id : ParticleId
  /-- The position of the particle's pool. -/
  pool : Option Nat := none
  own : Option OwnValues := none
deriving DecidableEq

namespace PlainParticle

open Attempt PlainPools

variable {dim spacedim : Nat}

/-- The particle with values of its own. -/
def owning (q : PlainParticle dim spacedim) (values : List Scalar) : PlainParticle dim spacedim :=
  { q with own := some { values } }

/-- The particle without values. -/
def stripped (q : PlainParticle dim spacedim) : PlainParticle dim spacedim := { q with own := none }

/-- The pool and the values, if the particle has any. -/
def held? (q : PlainParticle dim spacedim) : Option (Nat × OwnValues) :=
  match q.pool, q.own with
  | some i, some own => some (i, own)
  | _, _ => none

/-- The pools once the particle's values are gone. -/
def release (pools : PlainPools) (q : PlainParticle dim spacedim) : PlainPools :=
  match q.held? with
  | none => pools
  | some (i, _) => pools.released i

/-- Move the particle out of its place: the moved one has the values. -/
def take (q : PlainParticle dim spacedim) : PlainParticle dim spacedim × PlainParticle dim spacedim :=
  (q, q.stripped)

/-! ## Values -/

/-- The particle's values. -/
def values (pools : PlainPools) (q : PlainParticle dim spacedim) :
    Attempt ParticleError (List Scalar) :=
  match q.held? with
  | none => refuse .noProperties
  | some (i, own) => decided (pools.check i PlainPool.written?) own.values

/-- Write over the front of the particle's values: the values afterwards come first. -/
def overwrite (pools : PlainPools) (q : PlainParticle dim spacedim) (new : List Scalar) :
    Attempt ParticleError (List Scalar × PlainParticle dim spacedim × PlainPools) :=
  match q.held? with
  | none => refuse .noProperties
  | some (i, own) =>
    let values := overlay new own.values
    decided (pools.check i PlainPool.viewed?) (values, q.owning values, pools)

/-- Give a particle of the pool `i` these values, whether it has some or not. -/
def give (pools : PlainPools) (i : Nat) (q : PlainParticle dim spacedim) (new : List Scalar) :
    Attempt ParticleError (PlainParticle dim spacedim × PlainPools) :=
  match q.own with
  | none =>
    decided ((mismatch? new.length (pools.stride i)).or (pools.check i PlainPool.noRoom?))
      (q.owning new, pools.taken i)
  | some _ =>
    decided ((mismatch? new.length (pools.stride i)).or (pools.check i PlainPool.viewed?))
      (q.owning new, pools)

/-- Give the particle these values. -/
def setValues (pools : PlainPools) (q : PlainParticle dim spacedim) (new : List Scalar) :
    Attempt ParticleError (PlainParticle dim spacedim × PlainPools) :=
  match q.pool with
  | none => refuse .noProperties
  | some i => q.give pools i new

/-- Make the pool at a position the particle's pool. -/
def moveTo (pools : PlainPools) (q : PlainParticle dim spacedim) (target : Nat) :
    Attempt ParticleError (PlainParticle dim spacedim × PlainPools) :=
  match q.held? with
  | none => .ok ({ q with pool := some target }, pools)
  | some (i, own) =>
    decided ((mismatch? (pools.stride i) (pools.stride target)).or
        ((pools.check i PlainPool.written?).or (pools.check target PlainPool.noRoom?)))
      ({ q with pool := some target }.owning own.values, (pools.taken target).released i)

/-! ## Copies -/

/-- A copy of the particle. -/
def copy (pools : PlainPools) (q : PlainParticle dim spacedim) :
    Attempt ParticleError (PlainParticle dim spacedim × PlainPools) :=
  match q.held? with
  | none => .ok (q, pools)
  | some (i, own) => decided (pools.check i PlainPool.noRoom?) (q.owning own.values, pools.taken i)

/-- The particle overwritten with a copy of `source`. -/
def copyFrom (pools : PlainPools) (q source : PlainParticle dim spacedim) :
    Attempt ParticleError (PlainParticle dim spacedim × PlainPools) :=
  match source.held? with
  | none => .ok (source, q.release pools)
  | some (i, own) =>
    if q.pool = some i ∧ q.own.isSome then
      decided ((pools.check i PlainPool.written?).or (pools.check i PlainPool.viewed?))
        (source.owning own.values, pools)
    else
      decided (pools.check i PlainPool.noRoom?) (source.owning own.values, q.release (pools.taken i))

/-! ## To bytes -/

/-- How many values the particle has. -/
def propertyCount (pools : PlainPools) (q : PlainParticle dim spacedim) : Nat :=
  match q.held? with
  | none => 0
  | some (i, _) => pools.stride i

/-- The bytes that the particle's record takes. -/
def byteWidth (pools : PlainPools) (q : PlainParticle dim spacedim) : Nat :=
  Record.byteWidth dim spacedim (q.propertyCount pools)

/-- The particle's record, as bytes. -/
def encode (pools : PlainPools) (q : PlainParticle dim spacedim) : Attempt ParticleError Bytes := do
  let values ← if q.own.isSome then q.values pools else .ok []
  match (⟨q.location, q.reference, q.id, values⟩ : Record dim spacedim).encode with
  | .ok bytes => return bytes
  | .error cause => refuse (.malformed cause)

/-- Write the particle's record to a stream: the outcome, and the bytes that it took. -/
def save (pools : PlainPools) (q : PlainParticle dim spacedim) (chunk room : Option Nat) :
    Attempt ParticleError Unit × Bytes :=
  match q.encode pools with
  | .error failure => (.error failure, [])
  | .ok bytes =>
    match Stream.deliver chunk room bytes with
    | (.ok (), taken) => (.ok (), taken)
    | (.error cause, taken) => (refuse (.stream cause), taken)

/-! ## From bytes -/

/-- A particle with a record's contents. -/
def ofRecord (pools : PlainPools) (pool : Option Nat) (r : Record dim spacedim) :
    Attempt ParticleError (PlainParticle dim spacedim × PlainPools) :=
  let q : PlainParticle dim spacedim := ⟨r.location, r.reference, r.id, pool, none⟩
  if r.values = [] then .ok (q, pools)
  else
    match pool with
    | none => refuse (.missingPool r.values.length)
    | some i => q.give pools i r.values

/-- The particle with a record's coordinates and id. -/
def relabelled (q : PlainParticle dim spacedim) (r : Record dim spacedim) :
    PlainParticle dim spacedim :=
  { q with location := r.location, reference := r.reference, id := r.id }

/-- The particle with a record's contents, its values in the place of those it has. -/
def update (pools : PlainPools) (q : PlainParticle dim spacedim) (r : Record dim spacedim) :
    Attempt ParticleError (PlainParticle dim spacedim × PlainPools) :=
  match q.held? with
  | none => decided (mismatch? r.values.length 0) (q.relabelled r, pools)
  | some (i, _) =>
    decided ((mismatch? r.values.length (pools.stride i)).or (pools.check i PlainPool.viewed?))
      ((q.relabelled r).owning r.values, pools)

/-- The particle with a record's contents. A record without values leaves its values alone. -/
def absorb (pools : PlainPools) (q : PlainParticle dim spacedim) (r : Record dim spacedim) :
    Attempt ParticleError (PlainParticle dim spacedim × PlainPools) :=
  if r.values = [] then .ok (q.relabelled r, pools)
  else
    match q.pool with
    | none => refuse (.missingPool r.values.length)
    | some i => (q.relabelled r).give pools i r.values

/-- Whether the particle's pool takes a record with so many values. -/
def accepts (pools : PlainPools) (q : PlainParticle dim spacedim) (count : Nat) :
    Attempt ParticleError Unit :=
  if count = 0 then .ok ()
  else
    match q.pool with
    | none => refuse (.missingPool count)
    | some i => decided (mismatch? count (pools.stride i)) ()

/-- The particle with the contents of the next record of a stream, and what the stream
still has. -/
def load (pools : PlainPools) (q : PlainParticle dim spacedim) (chunk : Option Nat) (source : Bytes) :
    Attempt ParticleError (PlainParticle dim spacedim × PlainPools) × Bytes :=
  match Particle.receiveRecord dim spacedim chunk (q.accepts pools) source with
  | (.error failure, left) => (.error failure, left)
  | (.ok bytes, left) =>
    match (Record.decoder dim spacedim).run bytes with
    | .error cause => (refuse (.malformed cause), left)
    | .ok (r, _) => (q.absorb pools r, left)

end PlainParticle

end ParticleStore
