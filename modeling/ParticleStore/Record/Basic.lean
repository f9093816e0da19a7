/-
ParticleStore.Record.Basic — particle records.

A record is a particle's coordinates, id and property values without the storage
they live in. Its bytes are its header's bytes and then the values. Records are
written one after the other without any mark between them and are read back in
that order.
-/
import ParticleStore.Record.Header

namespace ParticleStore

/-- A particle's coordinates, id and property values. -/
structure Record (dim spacedim : Nat) where
  location : Point spacedim
  reference : Point dim
  id : ParticleId
  values : List Scalar
deriving DecidableEq

namespace Record

variable {dim spacedim : Nat}

/-- Bytes that a record with `count` property values takes. -/
def byteWidth (dim spacedim count : Nat) : Nat :=
  Header.byteWidth dim spacedim + count * Scalar.byteWidth

/-- The record's header. -/
def header (r : Record dim spacedim) : Header dim spacedim :=
  ⟨r.location, r.reference, r.id, r.values.length⟩

/-- The record with this header and these values. -/
def ofHeader (h : Header dim spacedim) (values : List Scalar) : Record dim spacedim :=
  ⟨h.location, h.reference, h.id, values⟩

/-- The record's bytes; none if it has more values than the count field can say. -/
def encode (r : Record dim spacedim) : Except RecordError Bytes := do
  let head ← r.header.encode
  return head ++ LittleEndian.ofScalars r.values

/-- A record. -/
def decoder (dim spacedim : Nat) : Decoder (Record dim spacedim) := do
  let head ← Header.decoder dim spacedim
  return ofHeader head (← Decoder.scalars head.count)

end Record

end ParticleStore
