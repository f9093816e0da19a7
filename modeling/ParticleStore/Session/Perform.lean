/-
ParticleStore.Session.Perform — what each step does.
-/
import ParticleStore.Particle.Copy
import ParticleStore.Session.Basic

namespace ParticleStore

namespace StepM

variable {dim spacedim : Nat}

/-! ## Pools -/

/-- Make a pool. -/
def makePool (config : PoolConfig) : StepM dim spacedim (Answer dim spacedim) := do
  let s ← get
  let (i, w) := s.world.addPool config
  set { s with world := w }
  return .poolMade (← pool i).id config

/-- Take a pool id that no pool will have. -/
def takePoolId : StepM dim spacedim (Answer dim spacedim) := do
  let s ← get
  let (id, w) := s.world.takeId
  set { s with world := w }
  return .poolId id

/-- Reserve slots in a pool. -/
def reserve (i n : Nat) : StepM dim spacedim (Answer dim spacedim) := do
  let i ← poolPosition i
  modify fun s => { s with world := s.world.reserve i n }
  return .done

/-- Issue a handle of a pool, to be kept under a key. -/
def issue (i dest : Nat) (f : Pool → Attempt PoolError (Handle × Pool)) :
    StepM dim spacedim (Answer dim spacedim) := do
  let i ← poolPosition i
  let h ← actOnPool i f
  keepHandle dest h
  return .handle h

/-- Release the slot that a kept handle names. -/
def release (i key : Nat) : StepM dim spacedim (Answer dim spacedim) := do
  let i ← poolPosition i
  let h ← keptHandle key
  match ← act (World.release i h) with
  | .ok left =>
    keepHandle key left
    return .released (.ok ()) left
  | .error failure => return .released (.error failure) h

/-- The values of a slot. -/
def readSlot (i : Nat) (name : HandleName) : StepM dim spacedim (Answer dim spacedim) := do
  let p ← pool i
  let h ← handle name
  match p.values h with
  | .ok values => return .scalars values
  | .error failure => return .poolFailed failure

/-- Write over the front of a slot's values. -/
def writeSlot (i : Nat) (name : HandleName) (values : List Scalar) :
    StepM dim spacedim (Answer dim spacedim) := do
  let i ← poolPosition i
  let h ← handle name
  return .scalars (← actOnPool i (·.overwrite h values))

/-! ## Handles -/

/-- Keep a second handle with the same parts under a key. -/
def shareHandle (name : HandleName) (dest : Nat) : StepM dim spacedim (Answer dim spacedim) := do
  let h ← handle name
  keepHandle dest h
  return .handle h

/-- Move a kept handle out of its place and keep it under another key. -/
def takeHandle (key dest : Nat) : StepM dim spacedim (Answer dim spacedim) := do
  let (moved, left) := (← keptHandle key).take
  keepHandle key left
  keepHandle dest moved
  return .handleTaken moved (← keptHandle key).isValid

/-! ## Views -/

/-- Open a view and keep it under a key; the one that was there is closed afterwards. -/
def openView (dest i : Nat) (name : HandleName) (writable : Bool) :
    StepM dim spacedim (Answer dim spacedim) := do
  let i ← poolPosition i
  let h ← handle name
  let v ← actOnPool i (·.openView h writable)
  let _ ← shutView dest
  modify fun s => { s with views := s.views.insert dest (i, v) }
  return .done

/-- The values that a view shows. -/
def viewed (key : Nat) : StepM dim spacedim (List Scalar) := do
  let (i, v) ← view key
  match (← pool i).slotValues v.position with
  | .ok values => return values
  | .error failure => stop (.poolFailed failure)

/-- Write over the front of the values that a view shows. -/
def writeView (key : Nat) (values : List Scalar) : StepM dim spacedim (Answer dim spacedim) := do
  let (i, v) ← view key
  if v.writable then
    return .scalars (← actOnPool i (·.overwriteAt v.position values))
  else stop (.unknown "writable view")

/-! ## Buffers -/

/-- Bytes with others written over them from a position on, as many as there are. -/
def patch (start : Nat) (data buffer : Bytes) : Bytes :=
  buffer.take start ++ (data.take (buffer.length - start) ++ buffer.drop (start + data.length))

/-- Change the bytes under a key. -/
def onBuffer (key : Nat) (f : Bytes → Bytes) : StepM dim spacedim (Answer dim spacedim) := do
  keepBuffer key (f (← buffer key))
  return .done

/-! ## Particles -/

/-- Store a particle under a key, and answer nothing. -/
def storeNew (key : Nat) (p : Particle dim spacedim) :
    StepM dim spacedim (Answer dim spacedim) := do
  store key p
  return .done

/-- Change the particle under a key. -/
def revise (key : Nat) (f : Particle dim spacedim → Action ParticleError (Particle dim spacedim)) :
    StepM dim spacedim (Answer dim spacedim) := do
  let p ← particle key
  putBack key (← actOnParticle (f p))
  return .done

/-- Make a particle from the record at the front of a buffer. -/
def decode (key b : Nat) (from? : Option Nat) : StepM dim spacedim (Answer dim spacedim) := do
  let from? ← from?.mapM poolPosition
  let input ← buffer b
  match ← act (Particle.ofBytes from? input) with
  | .ok (p, rest) =>
    keepBuffer b rest
    store key p
    return .transferred (.ok ()) rest.length
  | .error failure => return .transferred (.error failure) input.length

/-- Copy a particle to a key. -/
def copy (key dest : Nat) : StepM dim spacedim (Answer dim spacedim) := do
  let p ← particle key
  store dest (← actOnParticle p.copy)
  return .done

/-- Move a particle to a key. -/
def take (key dest : Nat) : StepM dim spacedim (Answer dim spacedim) := do
  let (moved, left) := (← particle key).take
  putBack key left
  store dest moved
  return .done

/-- Drop the particle under a key, if there is one. -/
def drop (key : Nat) : StepM dim spacedim (Answer dim spacedim) := do
  let s ← get
  match s.particles.find? key with
  | none => return .flag false
  | some p =>
    set { s with particles := s.particles.erase key }
    actOnParticle p.drop
    return .flag true

/-- Append a particle's record to a buffer. -/
def encode (key b : Nat) : StepM dim spacedim (Answer dim spacedim) := do
  let p ← particle key
  let out ← buffer b
  match p.encode (← world) with
  | .ok bytes =>
    keepBuffer b (out ++ bytes)
    return .transferred (.ok ()) (out ++ bytes).length
  | .error failure => return .transferred (.error failure) out.length

/-- Replace a particle's contents from the record at the front of a buffer. -/
def update (key b : Nat) : StepM dim spacedim (Answer dim spacedim) := do
  let p ← particle key
  let input ← buffer b
  match ← act (p.update input) with
  | .ok (p, rest) =>
    keepBuffer b rest
    putBack key p
    return .transferred (.ok ()) rest.length
  | .error failure => return .transferred (.error failure) input.length

/-- Append a particle's record to a buffer, piece by piece. -/
def save (key b : Nat) (chunk room : Option Nat) : StepM dim spacedim (Answer dim spacedim) := do
  let p ← particle key
  let out ← buffer b
  let (outcome, taken) := p.save (← world) chunk room
  keepBuffer b (out ++ taken)
  return .transferred outcome (out ++ taken).length

/-- Replace a particle's contents from the front of a buffer, piece by piece. -/
def load (key b : Nat) (chunk : Option Nat) : StepM dim spacedim (Answer dim spacedim) := do
  let p ← particle key
  let input ← buffer b
  let (outcome, rest) ← modifyGet fun s =>
    let (result, w) := (p.load chunk input).run s.world
    (result, { s with world := w })
  keepBuffer b rest
  match outcome with
  | .ok p =>
    putBack key p
    return .transferred (.ok ()) rest.length
  | .error failure => return .transferred (.error failure) rest.length

/-- Make the values that a view shows the particle's values. -/
def setValuesFromView (key v : Nat) : StepM dim spacedim (Answer dim spacedim) := do
  let p ← particle key
  let values ← viewed v
  putBack key (← actOnParticle (p.setValues values))
  return .done

/-! ## Batches -/

/-- Append the records of particles to a buffer. -/
def encodeBatch (keys : List Nat) (b : Nat) : StepM dim spacedim (Answer dim spacedim) := do
  let ps ← particles keys
  let w ← world
  let out ← buffer b
  match Batch.encode w ps with
  | .ok bytes =>
    keepBuffer b (out ++ bytes)
    return .batchEncoded (.ok ()) (Batch.byteWidth w ps) (out ++ bytes).length
  | .error failure => return .batchEncoded (.error failure) (Batch.byteWidth w ps) out.length

/-- Make particles from all records of a buffer, to be stored under successive keys. -/
def decodeBatch (b : Nat) (from? : Option Nat) (first : Nat) :
    StepM dim spacedim (Answer dim spacedim) := do
  let from? ← from?.mapM poolPosition
  let input ← buffer b
  let reading : Batch.Reading dim spacedim ← modifyGet fun s =>
    let (reading, w) := (Batch.decode from? input).run s.world
    (reading, { s with world := w })
  keepBuffer b reading.rest
  match reading.outcome with
  | .error failure => return .transferred (.error failure) reading.rest.length
  | .ok made =>
    storeAll first made
    let stored ← particles ((List.range made.length).map (first + ·))
    let w ← world
    return .batchDecoded (stored.map (·.snapshot w)) reading.rest.length

/-- What a step does. -/
def ofStep : Step dim spacedim → StepM dim spacedim (Answer dim spacedim)
  | .makePool config => makePool config
  | .takePoolId => takePoolId
  | .reserve i n => reserve i n
  | .hasCapacity i n => return .flag ((← pool i).hasCapacity n)
  | .allocate i dest => issue i dest Pool.allocate
  | .duplicate i name dest => do
    let h ← handle name
    issue i dest (·.duplicate h)
  | .release i h => release i h
  | .readSlot i name => readSlot i name
  | .writeSlot i name values => writeSlot i name values
  | .isLive i name => return .flag ((← pool i).isLive (← handle name))
  | .reportPool i => return .text (← pool i).report
  | .forge dest h => do
    keepHandle dest h
    return .handle h
  | .shareHandle name dest => shareHandle name dest
  | .takeHandle h dest => takeHandle h dest
  | .describeHandle name => return .handleFacts (← handle name)
  | .sameHandle name other => return .flag ((← handle name) == (← keptHandle other))
  | .openView dest i name writable => openView dest i name writable
  | .readView v => return .scalars (← viewed v)
  | .writeView v values => writeView v values
  | .closeView v => return .flag (← shutView v)
  | .setBuffer b data => onBuffer b fun _ => data
  | .truncateBuffer b n => onBuffer b (·.take n)
  | .patchBuffer b start data => onBuffer b (patch start data)
  | .appendBuffer b dest => do
    let more ← buffer b
    onBuffer dest (· ++ more)
  | .readBuffer b => return .bytes (← buffer b)
  | .make p => storeNew p .atOrigin
  | .makeAt p location reference id => storeNew p (.bare location reference id)
  | .decode p b from? => decode p b from?
  | .copy p dest => copy p dest
  | .copyFrom p source => do
    let other ← particle source
    revise p (·.copyFrom other)
  | .take p dest => take p dest
  | .drop p => drop p
  | .encode p b => encode p b
  | .update p b => update p b
  | .save p b chunk room => save p b chunk room
  | .load p b chunk => load p b chunk
  | .setLocation p location => revise p fun p => return { p with location }
  | .setReference p reference => revise p fun p => return { p with reference }
  | .setId p id => revise p fun p => return { p with id }
  | .releaseSlot p => revise p (·.releaseSlot)
  | .look _ => return .done
  | .moveTo p i => do
    let i ← poolPosition i
    revise p (·.moveTo i)
  | .setValues p values => revise p (·.setValues values)
  | .setValuesFromView p v => setValuesFromView p v
  | .overwrite p values => do
    let p ← particle p
    return .scalars (← actOnParticle (p.overwrite values))
  | .report p => return .text ((← particle p).report (← world))
  | .keys p => do
    let p ← particle p
    return .keys p.spatialKey p.referenceKey p.locationKey
  | .encodeBatch keys b => encodeBatch keys b
  | .decodeBatch b from? first => decodeBatch b from? first

end StepM

namespace Session

variable {dim spacedim : Nat}

/-- The answer to a step, and the session after it. -/
def perform (s : Session dim spacedim) (step : Step dim spacedim) :
    Answer dim spacedim × Session dim spacedim :=
  match (StepM.ofStep step).run.run s with
  | (.ok answer, s) => (answer, s)
  | (.error answer, s) => (answer, s)

/-- The answers to steps performed one after the other, and the session after them. -/
def run (s : Session dim spacedim) :
    List (Step dim spacedim) → List (Answer dim spacedim) × Session dim spacedim
  | [] => ([], s)
  | step :: steps =>
    let (answer, s) := s.perform step
    let (answers, s) := s.run steps
    (answer :: answers, s)

/-- What the particle under a key shows, if there is one. -/
def snapshot? (s : Session dim spacedim) (key : Nat) : Option (Snapshot dim spacedim) :=
  (s.particles.find? key).map (·.snapshot s.world)

/-- Live, free and total slots of each pool. -/
def poolCounts (s : Session dim spacedim) : List (Nat × Nat × Nat) :=
  s.world.pools.map fun p => (p.live, p.freeSlots, p.totalSlots)

/-- The events noted since they were last taken, and the session without them. -/
def takeEvents (s : Session dim spacedim) : List Event × Session dim spacedim :=
  (s.world.events, { s with world := { s.world with events := [] } })

/-- Close every view. -/
def closeViews (s : Session dim spacedim) : Session dim spacedim :=
  (s.run (s.views.entries.map fun entry => Step.closeView entry.1)).2

/-- Drop every particle, by ascending key. -/
def dropParticles (s : Session dim spacedim) : Session dim spacedim :=
  (s.run (s.particles.entries.map fun entry => Step.drop entry.1)).2

/-- End the session: the views are closed first, and then the particles dropped. -/
def finish (s : Session dim spacedim) : Session dim spacedim := s.closeViews.dropParticles

end Session

end ParticleStore
