/-
ParticleStore.Proofs.Plain.Session — sessions with particles that own their values.

A plain session keeps plain pools, and plain particles, views and buffers under keys. A
view has the values that it shows. While a write view is open, what is written through it
goes to the particle whose values it shows as well, and to no other. Steps on bare
handles are no matter of a plain session (`Step.isOfParticles`); to all others it answers as a
session does, except that it knows no handles to show.
-/
import ParticleStore.Proofs.Plain.Particle
import ParticleStore.Record.Consumption
import ParticleStore.Session.Perform
import Mathlib.Logic.Function.Basic

namespace ParticleStore

/-- A view, with the values that it shows. -/
structure PlainView where
  pool : Nat
  writable : Bool
  values : List Scalar

/-- A session with particles that own their values. -/
@[ext]
structure PlainSession (dim spacedim : Nat) where
  pools : PlainPools := []
  /-- The number that the next pool id takes. -/
  nextId : Nat := 1
  particles : Nat → Option (PlainParticle dim spacedim) := fun _ => none
  views : Nat → Option PlainView := fun _ => none
  buffers : Nat → Bytes := fun _ => []

/-- The steps of particles, pools, buffers, and views of particles. The others ask for a
handle, for a slot without a particle, or for the memory behind a pool. -/
def Step.isOfParticles {dim spacedim : Nat} : Step dim spacedim → Bool
  | .hasCapacity .. | .allocate .. | .duplicate .. | .release .. | .readSlot .. | .writeSlot .. |
    .isLive .. | .reportPool .. | .forge .. | .shareHandle .. | .takeHandle .. | .describeHandle .. |
    .sameHandle .. | .openView _ _ (.kept _) _ | .report .. => false
  | _ => true

/-- Everything that can be seen of a plain particle. -/
def PlainParticle.snapshot {dim spacedim : Nat} (pools : PlainPools)
    (q : PlainParticle dim spacedim) : Snapshot dim spacedim where
  location := q.location
  reference := q.reference
  id := q.id
  pool := (q.pool.bind (pools[·]?)).map PlainPool.id
  handle := .invalid
  hasProperties := q.own.isSome
  propertyCount := q.propertyCount pools
  byteWidth := q.byteWidth pools
  values := q.values pools

namespace PlainParticle

variable {dim spacedim : Nat}

/-- The particle once `values` are written through the write view on its pool. -/
def written (i : Nat) (values : List Scalar) (q : PlainParticle dim spacedim) :
    PlainParticle dim spacedim :=
  if q.pool = some i then
    { q with own := q.own.map fun own => if own.lent then { own with values } else own }
  else q

/-- The particle once the write view on its pool is closed. -/
def returned (i : Nat) (q : PlainParticle dim spacedim) : PlainParticle dim spacedim :=
  if q.pool = some i then { q with own := q.own.map fun own => { own with lent := false } } else q

/-- The records of particles, in order. -/
def encodeAll (pools : PlainPools) :
    List (PlainParticle dim spacedim) → Attempt ParticleError Bytes
  | [] => return []
  | q :: rest => do
    let first ← q.encode pools
    return first ++ (← encodeAll pools rest)

/-- Particles from all records of a buffer, after those already made, and the bytes that
are left. Where a record cannot be placed there are no particles at all. -/
def decodeAll (from? : Option Nat) (pools : PlainPools) (made : List (PlainParticle dim spacedim))
    (input : Bytes) :
    Attempt ParticleError (List (PlainParticle dim spacedim) × PlainPools) × Bytes :=
  if input = [] then (.ok (made, pools), [])
  else
    match h : (Record.decoder dim spacedim).run input with
    | .error cause => (Attempt.refuse (.malformed cause), input)
    | .ok (r, rest) =>
      have : rest.length < input.length := Record.length_lt_of_decode h
      match ofRecord pools from? r with
      | .error failure => (.error failure, input)
      | .ok (q, pools) => decodeAll from? pools (made ++ [q]) rest
termination_by input.length

end PlainParticle

namespace PlainSession

open Function

variable {dim spacedim : Nat}

/-- Continue with what is found, or answer that it is not there. -/
def found {α : Type} (m : PlainSession dim spacedim) (what : String) (o : Option α)
    (f : α → Answer dim spacedim × PlainSession dim spacedim) :
    Answer dim spacedim × PlainSession dim spacedim :=
  match o with
  | some a => f a
  | none => (.unknown what, m)

/-- The session with a particle under a key. -/
def put (m : PlainSession dim spacedim) (key : Nat) (q : PlainParticle dim spacedim) :
    PlainSession dim spacedim :=
  { m with particles := update m.particles key (some q) }

/-- The session with other bytes in a buffer. -/
def fill (m : PlainSession dim spacedim) (b : Nat) (data : Bytes) : PlainSession dim spacedim :=
  { m with buffers := update m.buffers b data }

/-- The session with a new particle under a key, in the place of the one that was there. -/
def store (m : PlainSession dim spacedim) (key : Nat) (q : PlainParticle dim spacedim) :
    PlainSession dim spacedim :=
  match m.particles key with
  | none => m.put key q
  | some old => { m.put key q with pools := old.release m.pools }

/-- The session with new particles under successive keys. -/
def storeAll (m : PlainSession dim spacedim) : Nat → List (PlainParticle dim spacedim) →
    PlainSession dim spacedim
  | _, [] => m
  | key, q :: rest => (m.store key q).storeAll (key + 1) rest

/-- What the particle under a key shows, if there is one. -/
def snapshot? (m : PlainSession dim spacedim) (key : Nat) : Option (Snapshot dim spacedim) :=
  (m.particles key).map (·.snapshot m.pools)

/-! ## Steps -/

/-- Change the particle under a key. -/
def revise (m : PlainSession dim spacedim) (key : Nat)
    (f : PlainParticle dim spacedim →
      Attempt ParticleError (PlainParticle dim spacedim × PlainPools)) :
    Answer dim spacedim × PlainSession dim spacedim :=
  m.found "particle" (m.particles key) fun q =>
    match f q with
    | .error failure => (.failed failure, m)
    | .ok (q, pools) => (.done, { m.put key q with pools })

/-- Close the view under a key. -/
def shutView (m : PlainSession dim spacedim) (key : Nat) : PlainSession dim spacedim :=
  match m.views key with
  | none => m
  | some v =>
    { m with
      pools := m.pools.modify v.pool (PlainPool.closed v.writable)
      views := update m.views key none
      particles :=
        if v.writable then fun k => (m.particles k).map (·.returned v.pool) else m.particles }

/-- Why no view of a particle can be opened in the pool `i`. -/
def viewRefused? (m : PlainSession dim spacedim) (i : Nat) (q : PlainParticle dim spacedim)
    (writable : Bool) : Option PoolError :=
  match q.held? with
  | none => some (.invalidHandle .sentinel)
  | some (j, _) =>
    if j ≠ i then some (.invalidHandle .foreignPool)
    else (m.pools[i]?).bind (if writable then PlainPool.viewed? else PlainPool.written?)

/-- Open a view of a particle's values in the pool `i`. -/
def openView (m : PlainSession dim spacedim) (dest i key : Nat) (writable : Bool) :
    Answer dim spacedim × PlainSession dim spacedim :=
  m.found "pool" m.pools[i]? fun _ => m.found "particle" (m.particles key) fun q =>
    match m.viewRefused? i q writable with
    | some cause => (.poolFailed (.refused cause), m)
    | none =>
      let q' := { q with own := q.own.map fun own => { own with lent := writable } }
      let opened := { m.put key q' with pools := m.pools.modify i (PlainPool.opened writable) }
      let shown := (q.own.map OwnValues.values).getD []
      let m := opened.shutView dest
      (.done, { m with views := update m.views dest (some ⟨i, writable, shown⟩) })

/-- Write over the front of the values that a view shows. -/
def writeView (m : PlainSession dim spacedim) (key : Nat) (new : List Scalar) :
    Answer dim spacedim × PlainSession dim spacedim :=
  m.found "view" (m.views key) fun v =>
    if v.writable then
      let values := overlay new v.values
      (.scalars values, { m with
        views := update m.views key (some { v with values })
        particles := fun k => (m.particles k).map (·.written v.pool values) })
    else (.unknown "writable view", m)

/-- Make a particle from the record at the front of a buffer. -/
def decode (m : PlainSession dim spacedim) (key b : Nat) (from? : Option Nat) :
    Answer dim spacedim × PlainSession dim spacedim :=
  if ∀ i, from? = some i → (m.pools[i]?).isSome then
    match (Record.decoder dim spacedim).run (m.buffers b) with
    | .error cause => (.transferred (Attempt.refuse (.malformed cause)) (m.buffers b).length, m)
    | .ok (r, rest) =>
      match PlainParticle.ofRecord m.pools from? r with
      | .error failure => (.transferred (.error failure) (m.buffers b).length, m)
      | .ok (q, pools) =>
        (.transferred (.ok ()) rest.length, ({ m with pools }.fill b rest).store key q)
  else (.unknown "pool", m)

/-- Append a particle's record to a buffer. -/
def encode (m : PlainSession dim spacedim) (key b : Nat) :
    Answer dim spacedim × PlainSession dim spacedim :=
  m.found "particle" (m.particles key) fun q =>
    match q.encode m.pools with
    | .ok bytes =>
      (.transferred (.ok ()) (m.buffers b ++ bytes).length, m.fill b (m.buffers b ++ bytes))
    | .error failure => (.transferred (.error failure) (m.buffers b).length, m)

/-- Replace a particle's contents from the record at the front of a buffer. -/
def update (m : PlainSession dim spacedim) (key b : Nat) :
    Answer dim spacedim × PlainSession dim spacedim :=
  m.found "particle" (m.particles key) fun q =>
    match (Record.decoder dim spacedim).run (m.buffers b) with
    | .error cause => (.transferred (Attempt.refuse (.malformed cause)) (m.buffers b).length, m)
    | .ok (r, rest) =>
      match q.update m.pools r with
      | .error failure => (.transferred (.error failure) (m.buffers b).length, m)
      | .ok (q, pools) =>
        (.transferred (.ok ()) rest.length, { (m.fill b rest).put key q with pools })

/-- Append a particle's record to a buffer, piece by piece. -/
def save (m : PlainSession dim spacedim) (key b : Nat) (chunk room : Option Nat) :
    Answer dim spacedim × PlainSession dim spacedim :=
  m.found "particle" (m.particles key) fun q =>
    let (outcome, taken) := q.save m.pools chunk room
    (.transferred outcome (m.buffers b ++ taken).length, m.fill b (m.buffers b ++ taken))

/-- Replace a particle's contents from the front of a buffer, piece by piece. -/
def load (m : PlainSession dim spacedim) (key b : Nat) (chunk : Option Nat) :
    Answer dim spacedim × PlainSession dim spacedim :=
  m.found "particle" (m.particles key) fun q =>
    match q.load m.pools chunk (m.buffers b) with
    | (.error failure, left) => (.transferred (.error failure) left.length, m.fill b left)
    | (.ok (q, pools), left) =>
      (.transferred (.ok ()) left.length, { (m.fill b left).put key q with pools })

/-- Append the records of particles to a buffer. -/
def encodeBatch (m : PlainSession dim spacedim) (keys : List Nat) (b : Nat) :
    Answer dim spacedim × PlainSession dim spacedim :=
  m.found "particle" (keys.mapM m.particles) fun qs =>
    let expected := qs.foldr (fun q total => q.byteWidth m.pools + total) 0
    match PlainParticle.encodeAll m.pools qs with
    | .ok bytes =>
      (.batchEncoded (.ok ()) expected (m.buffers b ++ bytes).length,
        m.fill b (m.buffers b ++ bytes))
    | .error failure => (.batchEncoded (.error failure) expected (m.buffers b).length, m)

/-- Make particles from all records of a buffer, to be stored under successive keys. -/
def decodeBatch (m : PlainSession dim spacedim) (b : Nat) (from? : Option Nat) (first : Nat) :
    Answer dim spacedim × PlainSession dim spacedim :=
  if ∀ i, from? = some i → (m.pools[i]?).isSome then
    match PlainParticle.decodeAll from? m.pools [] (m.buffers b) with
    | (.error failure, left) => (.transferred (.error failure) left.length, m.fill b left)
    | (.ok (made, pools), left) =>
      let m := ({ m with pools }.fill b left).storeAll first made
      m.found "particle" (((List.range made.length).map (first + ·)).mapM m.particles) fun stored =>
        (.batchDecoded (stored.map (PlainParticle.snapshot m.pools)) left.length, m)
  else (.unknown "pool", m)

/-- The answer to a step, and the session after it. -/
def perform (m : PlainSession dim spacedim) :
    Step dim spacedim → Answer dim spacedim × PlainSession dim spacedim
  | .makePool config =>
    (.poolMade ⟨m.nextId⟩ config, { m with
      pools := m.pools ++ [{ id := ⟨m.nextId⟩, stride := config.stride, limit := config.slotLimit }]
      nextId := m.nextId + 1 })
  | .takePoolId => (.poolId ⟨m.nextId⟩, { m with nextId := m.nextId + 1 })
  | .reserve i _ => m.found "pool" m.pools[i]? fun _ => (.done, m)
  | .openView dest i (.ofParticle key) writable => m.openView dest i key writable
  | .readView v => m.found "view" (m.views v) fun view => (.scalars view.values, m)
  | .writeView v values => m.writeView v values
  | .closeView v => (.flag (m.views v).isSome, m.shutView v)
  | .setBuffer b data => (.done, m.fill b data)
  | .truncateBuffer b n => (.done, m.fill b ((m.buffers b).take n))
  | .patchBuffer b start data => (.done, m.fill b (StepM.patch start data (m.buffers b)))
  | .appendBuffer b dest => (.done, m.fill dest (m.buffers dest ++ m.buffers b))
  | .readBuffer b => (.bytes (m.buffers b), m)
  | .make key => (.done, m.store key ⟨.origin spacedim, .origin dim, ⟨0⟩, none, none⟩)
  | .makeAt key location reference id => (.done, m.store key ⟨location, reference, id, none, none⟩)
  | .decode key b from? => m.decode key b from?
  | .copy key dest => m.found "particle" (m.particles key) fun q =>
    match q.copy m.pools with
    | .error failure => (.failed failure, m)
    | .ok (copy, pools) => (.done, { m with pools }.store dest copy)
  | .copyFrom key source => m.found "particle" (m.particles source) fun source =>
    m.revise key (·.copyFrom m.pools source)
  | .take key dest => m.found "particle" (m.particles key) fun q =>
    (.done, (m.put key q.take.2).store dest q.take.1)
  | .drop key =>
    match m.particles key with
    | none => (.flag false, m)
    | some q =>
      (.flag true, { m with
        particles := Function.update m.particles key none, pools := q.release m.pools })
  | .encode key b => m.encode key b
  | .update key b => m.update key b
  | .save key b chunk room => m.save key b chunk room
  | .load key b chunk => m.load key b chunk
  | .setLocation key location => m.revise key fun q => .ok ({ q with location }, m.pools)
  | .setReference key reference => m.revise key fun q => .ok ({ q with reference }, m.pools)
  | .setId key id => m.revise key fun q => .ok ({ q with id }, m.pools)
  | .releaseSlot key => m.revise key fun q => .ok (q.stripped, q.release m.pools)
  | .moveTo key i => m.found "pool" m.pools[i]? fun _ => m.revise key (·.moveTo m.pools i)
  | .setValues key values => m.revise key (·.setValues m.pools values)
  | .setValuesFromView key v => m.found "particle" (m.particles key) fun _ =>
    m.found "view" (m.views v) fun view => m.revise key (·.setValues m.pools view.values)
  | .overwrite key values => m.found "particle" (m.particles key) fun q =>
    match q.overwrite m.pools values with
    | .error failure => (.failed failure, m)
    | .ok (values, q, pools) => (.scalars values, { m.put key q with pools })
  | .keys key => m.found "particle" (m.particles key) fun q =>
    (.keys q.reference q.reference q.location, m)
  | .encodeBatch keys b => m.encodeBatch keys b
  | .decodeBatch b from? first => m.decodeBatch b from? first
  | _ => (.done, m)

/-! Equations for steps that other proofs look into, so that a proof opens one step and not all of
them. -/

section Equations

variable (m : PlainSession dim spacedim) (key : Nat)

theorem perform_reserve (i n : Nat) :
    m.perform (.reserve i n) = m.found "pool" m.pools[i]? fun _ => (.done, m) := rfl

theorem perform_readView (v : Nat) :
    m.perform (.readView v) = m.found "view" (m.views v) fun view => (.scalars view.values, m) :=
  rfl

theorem perform_copy (dest : Nat) :
    m.perform (.copy key dest) = m.found "particle" (m.particles key) fun q =>
      match q.copy m.pools with
      | .error failure => (.failed failure, m)
      | .ok (copy, pools) => (.done, { m with pools }.store dest copy) := rfl

theorem perform_copyFrom (source : Nat) :
    m.perform (.copyFrom key source) = m.found "particle" (m.particles source) fun source =>
      m.revise key (·.copyFrom m.pools source) := rfl

theorem perform_take (dest : Nat) :
    m.perform (.take key dest) = m.found "particle" (m.particles key) fun q =>
      (.done, (m.put key q.take.2).store dest q.take.1) := rfl

theorem perform_drop :
    m.perform (.drop key) =
      match m.particles key with
      | none => (.flag false, m)
      | some q => (.flag true, { m with
          particles := Function.update m.particles key none, pools := q.release m.pools }) := rfl

theorem perform_moveTo (i : Nat) :
    m.perform (.moveTo key i) = m.found "pool" m.pools[i]? fun _ =>
      m.revise key (·.moveTo m.pools i) := rfl

theorem perform_setValuesFromView (v : Nat) :
    m.perform (.setValuesFromView key v) = m.found "particle" (m.particles key) fun _ =>
      m.found "view" (m.views v) fun view => m.revise key (·.setValues m.pools view.values) := rfl

theorem perform_overwrite (values : List Scalar) :
    m.perform (.overwrite key values) = m.found "particle" (m.particles key) fun q =>
      match q.overwrite m.pools values with
      | .error failure => (.failed failure, m)
      | .ok (values, q, pools) => (.scalars values, { m.put key q with pools }) := rfl

theorem perform_keys :
    m.perform (.keys key) = m.found "particle" (m.particles key) fun q =>
      (.keys q.reference q.reference q.location, m) := rfl

end Equations

/-- The answers to steps performed one after the other, and the session after them. -/
def run (m : PlainSession dim spacedim) :
    List (Step dim spacedim) → List (Answer dim spacedim) × PlainSession dim spacedim
  | [] => ([], m)
  | step :: steps =>
    let (answer, m) := m.perform step
    let (answers, m) := m.run steps
    (answer :: answers, m)

end PlainSession

end ParticleStore
