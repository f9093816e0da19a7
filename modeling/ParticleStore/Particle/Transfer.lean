/-
ParticleStore.Particle.Transfer — particles as records, and records as particles.

A particle is written as the record of its coordinates, id and values. A record
becomes a new particle (`ofRecord`), replaces the contents of a particle without
taking or releasing a slot (`update`), or replaces them and takes a slot where
one is needed (`absorb`). A record without values never touches a pool. Bytes that
are not a record are refused before any pool is asked.
-/
import ParticleStore.Particle.Properties
import ParticleStore.Particle.Stream

namespace ParticleStore

/-- The pool for records with `recorded` values: it has to be given, and to have slots
of just that many. -/
def World.poolFor (w : World) (pool : Option Nat) (recorded : Nat) : Attempt ParticleError Nat := do
  match pool with
  | none => Attempt.refuse (.missingPool recorded)
  | some i =>
    let stride := (← w.pool i).stride
    if stride ≠ recorded then Attempt.refuse (.countMismatch recorded stride)
    else return i

/-- A decoder's value, with the bytes after it. -/
def Attempt.ofDecoder {α : Type} (decoder : Decoder α) (input : Bytes) :
    Attempt ParticleError (α × Bytes) :=
  match decoder.run input with
  | .ok result => .ok result
  | .error cause => Attempt.refuse (.malformed cause)

namespace Particle

variable {dim spacedim : Nat}

/-! ## To bytes -/

/-- The particle's record. -/
def toRecord (w : World) (p : Particle dim spacedim) :
    Attempt ParticleError (Record dim spacedim) := do
  let values ← if p.hasProperties then p.values w else .ok []
  return ⟨p.location, p.reference, p.id, values⟩

/-- The bytes of the particle's record. -/
def encode (w : World) (p : Particle dim spacedim) : Attempt ParticleError Bytes := do
  match (← p.toRecord w).encode with
  | .ok bytes => return bytes
  | .error cause => Attempt.refuse (.malformed cause)

/-- Write the particle's record to a stream: the outcome, and the bytes that the stream
took. -/
def save (w : World) (p : Particle dim spacedim) (chunk room : Option Nat) :
    Attempt ParticleError Unit × Bytes :=
  match p.encode w with
  | .error failure => (.error failure, [])
  | .ok bytes =>
    match Stream.deliver chunk room bytes with
    | (.ok (), taken) => (.ok (), taken)
    | (.error cause, taken) => (Attempt.refuse (.stream cause), taken)

/-! ## From bytes -/

/-- A new particle with a record's contents. The pool becomes the particle's pool even
if the record has no values. -/
def ofRecord (pool : Option Nat) (r : Record dim spacedim) :
    Action ParticleError (Particle dim spacedim) := do
  let p : Particle dim spacedim := { bare r.location r.reference r.id with pool }
  if r.values.isEmpty then return p
  else
    let i ← Action.query fun w => w.poolFor pool r.values.length
    return { p with handle := ← World.allocateFilled i r.values }

/-- A new particle from the record at the front, and the bytes after it. -/
def ofBytes (pool : Option Nat) (input : Bytes) :
    Action ParticleError (Particle dim spacedim × Bytes) := do
  let (r, rest) ← Action.ofAttempt (Attempt.ofDecoder (Record.decoder dim spacedim) input)
  return (← ofRecord pool r, rest)

/-- The particle with the contents of the record at the front, and the bytes after it.
The record has to have as many values as the particle. -/
def update (p : Particle dim spacedim) (input : Bytes) :
    Action ParticleError (Particle dim spacedim × Bytes) := do
  let (r, rest) ← Action.ofAttempt (Attempt.ofDecoder (Record.decoder dim spacedim) input)
  let expected ← Action.query fun w => return p.propertyCount w
  if r.values.length ≠ expected then
    Action.refuse (.countMismatch r.values.length expected)
  else
    match p.slot? with
    | none => pure ()
    | some (i, h) => (World.setValues i h r.values).mapCause .pool
    return ({ p with location := r.location, reference := r.reference, id := r.id }, rest)

/-! ## From a stream -/

/-- The particle with a record's contents, and a slot of its pool if the record has values
and the particle has no slot. -/
def absorb (p : Particle dim spacedim) (r : Record dim spacedim) :
    Action ParticleError (Particle dim spacedim) := do
  let p' := { p with location := r.location, reference := r.reference, id := r.id }
  if r.values.isEmpty then return p'
  else
    let i ← Action.query fun w => w.poolFor p.pool r.values.length
    if p.handle.isValid then
      (World.setValues i p.handle r.values).mapCause .pool
      return p'
    else
      return { p' with handle := ← World.allocateFilled i r.values }

/-- The property count that a header's bytes declare: their last four. -/
def declaredCount (dim spacedim : Nat) (head : Bytes) : Nat :=
  (LittleEndian.toWord32 (head.drop (Header.byteWidth dim spacedim - Header.countWidth))).toNat

/-- The bytes of one record from a stream, and what the stream still has. The header comes
first; the values follow only if its count is allowed. -/
def receiveRecord (dim spacedim : Nat) (chunk : Option Nat)
    (allowed : Nat → Attempt ParticleError Unit) (source : Bytes) :
    Attempt ParticleError Bytes × Bytes :=
  match Stream.receive chunk (Header.byteWidth dim spacedim) source with
  | (.error cause, source) => (Attempt.refuse (.stream cause), source)
  | (.ok head, source) =>
    let count := declaredCount dim spacedim head
    match allowed count with
    | .error failure => (.error failure, source)
    | .ok () =>
      match Stream.receive chunk (count * Scalar.byteWidth) source with
      | (.error cause, source) => (Attempt.refuse (.stream cause), source)
      | (.ok body, source) => (.ok (head ++ body), source)

/-- Whether the particle's pool takes a record with so many values. -/
def accepts (w : World) (p : Particle dim spacedim) (count : Nat) : Attempt ParticleError Unit :=
  if count = 0 then .ok () else discard (w.poolFor p.pool count)

/-- The particle with the contents of the next record of a stream, and what the stream
still has, whether this succeeds or not. -/
def load (p : Particle dim spacedim) (chunk : Option Nat) (source : Bytes) :
    StateM World (Attempt ParticleError (Particle dim spacedim) × Bytes) := do
  let w ← get
  match receiveRecord dim spacedim chunk (p.accepts w) source with
  | (.error failure, source) => return (.error failure, source)
  | (.ok bytes, source) =>
    match Attempt.ofDecoder (Record.decoder dim spacedim) bytes with
    | .error failure => return (.error failure, source)
    | .ok (r, _) => return (← (p.absorb r).run, source)

end Particle

end ParticleStore
