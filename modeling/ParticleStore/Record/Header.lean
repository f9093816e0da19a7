/-
ParticleStore.Record.Header — the fixed part of a particle record.

A record holds no padding and no lengths but its property count:

    location          one scalar per space dimension
    reference         one scalar per reference dimension
    id                64-bit word
    count             32-bit word
    properties        `count` scalars

The header is all but the last line. Reading a header also makes sure that the
declared properties are there, so a record cut short is refused before anything
is done with it.
-/
import ParticleStore.Bytes.Field
import ParticleStore.Particle.Id
import ParticleStore.Point

namespace ParticleStore

/-- The fixed part of a record. -/
structure Header (dim spacedim : Nat) where
  location : Point spacedim
  reference : Point dim
  id : ParticleId
  /-- How many property values follow. -/
  count : Nat
deriving DecidableEq

namespace Header

variable {dim spacedim : Nat}

/-- Bytes that the property count takes. -/
def countWidth : Nat := 4

/-- Bytes that a header takes. -/
def byteWidth (dim spacedim : Nat) : Nat :=
  (spacedim + dim) * Scalar.byteWidth + ParticleId.byteWidth + countWidth

/-- Equal ids and counts, and numerically equal points. -/
def sameValue (a b : Header dim spacedim) : Bool :=
  a.location.sameValue b.location && a.reference.sameValue b.reference &&
    a.id == b.id && a.count == b.count

/-- The header in a report. -/
def report (h : Header dim spacedim) : String :=
  Report.fields "RecordHeader"
    [("location", h.location.report), ("reference_location", h.reference.report),
      ("id", h.id.report), ("property_count", toString h.count)]

/-! ## Bytes -/

/-- The header's bytes; none if the count field cannot say the count. -/
def encode (h : Header dim spacedim) : Except RecordError Bytes :=
  if h.count < UInt32.size then
    .ok (LittleEndian.ofScalars h.location.coords ++ LittleEndian.ofScalars h.reference.coords ++
      LittleEndian.ofWord64 h.id.number ++ LittleEndian.ofWord32 (UInt32.ofNat h.count))
  else .error (.countTooLarge h.count)

/-- A point, coordinate by coordinate. -/
def point : (dim : Nat) → Decoder (Point dim)
  | 0 => return ⟨[], rfl⟩
  | dim + 1 => do
    let x ← Decoder.scalar
    let p ← point dim
    return ⟨x :: p.coords, by rw [List.length_cons, p.length_coords]⟩

/-- A header, if the property values that it declares follow. -/
def decoder (dim spacedim : Nat) : Decoder (Header dim spacedim) := do
  let location ← point spacedim
  let reference ← point dim
  let id ← Decoder.word64
  let count ← Decoder.word32
  let needed := count.toNat * Scalar.byteWidth
  let available ← Decoder.available
  if available < needed then
    throw (.truncatedRecord count.toNat needed available)
  return { location, reference, id := ⟨id⟩, count := count.toNat }

end Header

end ParticleStore
