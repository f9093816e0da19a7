/-
ParticleStore.Bytes.Field — reading and writing the fields of a record.

A field is a 32-bit word, a 64-bit word, a scalar or a run of scalars. A
`Decoder` takes its value from the front of the bytes that are left; one that
finds too few gives an error and no new position, so whoever holds the bytes goes
on from where they were. `readFields` reads a sequence of fields in that way,
whether each one succeeds or not.
-/
import ParticleStore.Bytes.LittleEndian

namespace ParticleStore

/-- Why bytes are no record, or a record has no bytes. -/
inductive RecordError where
  /-- Fewer bytes than the named field takes. -/
  | truncatedField (field : String) (needed available : Nat)
  /-- Fewer bytes than the run of scalars takes. -/
  | truncatedValues (needed available : Nat)
  /-- Fewer bytes than the declared number of property values takes. -/
  | truncatedRecord (count needed available : Nat)
  /-- More property values than the count field can say. -/
  | countTooLarge (count : Nat)
  /-- Any other reason. -/
  | other (detail : String)
deriving DecidableEq, Inhabited

/-- The text of the reason. -/
def RecordError.detail : RecordError → String
  | truncatedField field needed available =>
    s!"truncated {field}: need {needed} bytes, have {available}"
  | truncatedValues needed available =>
    s!"truncated properties: need {needed} bytes, have {available}"
  | truncatedRecord count needed available =>
    s!"truncated properties: record declares {count} values " ++
      s!"({needed} bytes), have {available} bytes"
  | countTooLarge count => s!"property count {count} exceeds the u32 count field"
  | other detail => detail

/-- A decoder takes its value from the front of the bytes that are left. -/
abbrev Decoder (α : Type) : Type := StateT Bytes (Except RecordError) α

namespace Decoder

/-! ## Single fields -/

/-- How many bytes are left. -/
def available : Decoder Nat := return (← get).length

/-- The next `width` bytes, or the error for how many there are instead. -/
def bytes (width : Nat) (tooFew : Nat → RecordError) : Decoder Bytes := do
  let input ← get
  if width ≤ input.length then
    set (input.drop width)
    return input.take width
  else throw (tooFew input.length)

/-- A 32-bit word. -/
def word32 : Decoder UInt32 :=
  return LittleEndian.toWord32 (← bytes 4 (.truncatedField "u32" 4))

/-- A 64-bit word. -/
def word64 : Decoder UInt64 :=
  return LittleEndian.toWord64 (← bytes 8 (.truncatedField "u64" 8))

/-- A scalar. -/
def scalar : Decoder Scalar := do
  let width := Scalar.byteWidth
  return LittleEndian.toScalar (← bytes width (.truncatedField "scalar" width))

/-- A run of `n` scalars. -/
def scalars (n : Nat) : Decoder (List Scalar) := do
  let needed := n * Scalar.byteWidth
  return LittleEndian.toScalars n (← bytes needed (.truncatedValues needed))

end Decoder

/-! ## Sequences of fields -/

/-- A field with its value. -/
inductive Field where
  | word32 (value : UInt32)
  | word64 (value : UInt64)
  | scalar (value : Scalar)
  | scalars (values : List Scalar)
deriving DecidableEq, Inhabited

/-- What to read. -/
inductive FieldKind where
  | word32
  | word64
  | scalar
  /-- A run of scalars to be read over `target`, as many as that holds. -/
  | scalars (target : List Scalar)
deriving DecidableEq, Inhabited

/-- The bytes of a field. -/
def Field.encode : Field → Bytes
  | word32 value => LittleEndian.ofWord32 value
  | word64 value => LittleEndian.ofWord64 value
  | scalar value => LittleEndian.ofScalar value
  | scalars values => LittleEndian.ofScalars values

/-- The decoder of a kind of field. -/
def FieldKind.decoder : FieldKind → Decoder Field
  | word32 => return .word32 (← Decoder.word32)
  | word64 => return .word64 (← Decoder.word64)
  | scalar => return .scalar (← Decoder.scalar)
  | scalars target => return .scalars (← Decoder.scalars target.length)

/-- What a run of scalars is read over: nothing for the other kinds. -/
def FieldKind.target : FieldKind → List Scalar
  | scalars target => target
  | _ => []

/-- One field read in a sequence. -/
structure FieldReading where
  outcome : Except RecordError Field
  /-- The scalars that a run was read over, as they are afterwards. -/
  target : List Scalar
  /-- The bytes left for the next field. -/
  rest : Bytes
deriving Inhabited

/-- Read one field; a field that cannot be read changes neither its target nor the bytes. -/
def FieldKind.readOver (kind : FieldKind) (input : Bytes) : FieldReading :=
  match kind.decoder.run input with
  | .ok (.scalars values, rest) => ⟨.ok (.scalars values), values, rest⟩
  | .ok (field, rest) => ⟨.ok field, kind.target, rest⟩
  | .error e => ⟨.error e, kind.target, input⟩

/-- Read fields one after the other, each from where the one before it left off. -/
def readFields : List FieldKind → Bytes → List FieldReading
  | [], _ => []
  | kind :: kinds, input =>
    let reading := kind.readOver input
    reading :: readFields kinds reading.rest

/-- Append fields to bytes already written. -/
def writeFields (out : Bytes) (fields : List Field) : Bytes := out ++ fields.flatMap Field.encode

end ParticleStore
