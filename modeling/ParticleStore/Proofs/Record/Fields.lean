/-
ParticleStore.Proofs.Record.Fields — mixed sequences of fields.

Every kind of field has a width, and a reading of it is decided by the bytes that are left: with
as many as its width it takes just these (`FieldKind.run_decoder`), with fewer it takes none. A
sequence of readings is then an induction on the kinds, with the bytes left by one reading as the
input of the next (`leftAfter`). Fields of any kinds that are written one after the other are
read back by readings of the same kinds, and what was behind them is left (`ReadsBack`); from
any other bytes each reading still takes its width or nothing (`ReadsOn`).

Callers read and write in place: a run of scalars is read over the caller's own, one element
after the other, and fields are pushed onto the bytes that are there. It comes to the same
(`readInPlace_eq`, `pushFields_eq`).
-/
import ParticleStore.Proofs.Record.Cursor
import Mathlib.Data.List.Forall2

namespace ParticleStore

variable {kind : FieldKind} {kinds : List FieldKind} {field : Field} {fields : List Field}
  {d : Bytes}

open LittleEndian

/-! ## In place -/

/-- Read over the elements of `target`, one for each chunk of bytes, as long as there are both. -/
def fill : List Scalar → Bytes → List Scalar
  | [], _ => []
  | x :: target, bytes =>
    if Scalar.byteWidth ≤ bytes.length then
      toScalar (bytes.take Scalar.byteWidth) :: fill target (bytes.drop Scalar.byteWidth)
    else x :: target

/-- Read one field with the caller's cursor. -/
def Cursor.readField (c : Cursor Field) (input : Bytes) : FieldReading :=
  let (outcome, rest) := c.exec input
  ⟨outcome, [], rest⟩

/-- Read one field of a kind with the caller's cursor, a run of scalars over the caller's own. -/
def FieldKind.readInPlace (kind : FieldKind) (input : Bytes) : FieldReading :=
  match kind with
  | word32 => Cursor.readField (return .word32 (← Cursor.word32)) input
  | word64 => Cursor.readField (return .word64 (← Cursor.word64)) input
  | scalar => Cursor.readField (return .scalar (← Cursor.scalar)) input
  | scalars target =>
    let needed := target.length * Scalar.byteWidth
    if input.length < needed then ⟨.error (.truncatedValues needed input.length), target, input⟩
    else
      let filled := fill target (input.take needed)
      ⟨.ok (.scalars filled), filled, input.drop needed⟩

/-- Read fields in place, each from where the one before it has left the cursor. -/
def readInPlace : List FieldKind → Bytes → List FieldReading
  | [], _ => []
  | kind :: kinds, input =>
    let reading := kind.readInPlace input
    reading :: readInPlace kinds reading.rest

/-- Push the bytes of a field onto those that are there. -/
def Field.push (out : Bytes) : Field → Bytes
  | word32 value => out ++ ofWord32 value
  | word64 value => out ++ ofWord64 value
  | scalar value => out ++ ofScalar value
  | scalars values => pushScalars out values

/-- Push fields one after the other. -/
def pushFields (out : Bytes) (fields : List Field) : Bytes := fields.foldl Field.push out

theorem Field.push_eq (out : Bytes) (field : Field) : field.push out = out ++ field.encode := by
  cases field with
  | scalars values => exact pushScalars_eq out values
  | _ => rfl

theorem pushFields_eq (out : Bytes) (fields : List Field) :
    pushFields out fields = writeFields out fields := by
  induction fields generalizing out with
  | nil => simp [pushFields, writeFields]
  | cons field fields ih =>
    have hstep : pushFields out (field :: fields) = pushFields (field.push out) fields := rfl
    rw [hstep, ih, Field.push_eq]
    simp [writeFields]

/-- With enough bytes every element is read over, so it does not matter what the target held. -/
theorem fill_eq (target : List Scalar) (d : Bytes)
    (henough : target.length * Scalar.byteWidth ≤ d.length) :
    fill target d = toScalars target.length d := by
  induction target generalizing d with
  | nil => rfl
  | cons x target ih =>
    rw [List.length_cons, Nat.succ_mul] at henough
    have hrest : target.length * Scalar.byteWidth ≤ (d.drop Scalar.byteWidth).length := by
      rw [List.length_drop]
      omega
    rw [fill, if_pos (by omega), ih _ hrest]
    rfl

/-! ## One field -/

/-- How many bytes a field of this kind takes. -/
def FieldKind.width : FieldKind → Nat
  | word32 => 4
  | word64 => 8
  | scalar => Scalar.byteWidth
  | scalars target => target.length * Scalar.byteWidth

/-- The field of a kind at the front of the bytes. -/
def FieldKind.fieldAt (kind : FieldKind) (d : Bytes) : Field :=
  match kind with
  | word32 => .word32 (toWord32 (d.take 4))
  | word64 => .word64 (toWord64 (d.take 8))
  | scalar => .scalar (scalarAt d 0)
  | scalars target => .scalars (scalarsAt d 0 target.length)

/-- The error for so many bytes, too few for a field of this kind. -/
def FieldKind.shortfall (kind : FieldKind) (available : Nat) : RecordError :=
  match kind with
  | word32 => .truncatedField "u32" 4 available
  | word64 => .truncatedField "u64" 8 available
  | scalar => .truncatedField "scalar" Scalar.byteWidth available
  | scalars target => .truncatedValues (target.length * Scalar.byteWidth) available

/-- A field of the kind. A run of scalars is read over as many. -/
inductive FieldKind.Fits : FieldKind → Field → Prop where
  | word32 (value : UInt32) : Fits .word32 (.word32 value)
  | word64 (value : UInt64) : Fits .word64 (.word64 value)
  | scalar (value : Scalar) : Fits .scalar (.scalar value)
  | scalars (target values : List Scalar) (hlength : values.length = target.length) :
    Fits (.scalars target) (.scalars values)

/-- The scalars of a run: nothing for the other fields. -/
def Field.values : Field → List Scalar
  | scalars values => values
  | _ => []

/-- A value of fixed width, as a field. -/
theorem Decoder.run_field {α : Type} {decoder : Decoder α} {make : α → Field} {width : Nat} {a : α}
    {cause : RecordError} (hrun : decoder.run d =
      if width ≤ d.length then .ok (a, d.drop width) else .error cause) :
    (do return make (← decoder) : Decoder Field).run d =
      if width ≤ d.length then .ok (make a, d.drop width) else .error cause := by
  rw [run_bind, hrun]
  by_cases hle : width ≤ d.length
  · rw [if_pos hle, if_pos hle]
    rfl
  · rw [if_neg hle, if_neg hle]

/-- A kind of field takes just its width from the front, if there are as many bytes. -/
theorem FieldKind.run_decoder (kind : FieldKind) (d : Bytes) :
    kind.decoder.run d =
      if kind.width ≤ d.length then .ok (kind.fieldAt d, d.drop kind.width)
      else .error (kind.shortfall d.length) := by
  cases kind with
  | word32 => exact Decoder.run_field (Decoder.run_word32 d)
  | word64 => exact Decoder.run_field (Decoder.run_word64 d)
  | scalar => exact Decoder.run_field (Decoder.run_scalar d)
  | scalars target => exact Decoder.run_field (Decoder.run_scalars target.length d)

theorem FieldKind.readOver_eq (kind : FieldKind) (d : Bytes) :
    kind.readOver d =
      if kind.width ≤ d.length then
        ⟨.ok (kind.fieldAt d), (kind.fieldAt d).values, d.drop kind.width⟩
      else ⟨.error (kind.shortfall d.length), kind.target, d⟩ := by
  rw [readOver, run_decoder]
  by_cases hle : kind.width ≤ d.length
  · rw [if_pos hle, if_pos hle]
    cases kind <;> rfl
  · rw [if_neg hle, if_neg hle]

/-- A field that is no run is read alike by a cursor and by a decoder. -/
theorem Cursor.readField_eq {c : Cursor Field} (hc : c.Transacts kind.decoder)
    (htarget : kind.target = []) (hvalues : (kind.fieldAt d).values = []) :
    c.readField d = kind.readOver d := by
  rw [readField, hc d, FieldKind.readOver_eq, FieldKind.run_decoder, htarget, hvalues]
  by_cases hle : kind.width ≤ d.length
  · rw [if_pos hle, if_pos hle]
  · rw [if_neg hle, if_neg hle]

/-- Reading in place comes to the same. -/
theorem FieldKind.readInPlace_eq (kind : FieldKind) (d : Bytes) :
    kind.readInPlace d = kind.readOver d := by
  cases kind with
  | word32 =>
    rw [readInPlace]
    exact Cursor.readField_eq (Cursor.transacts_word32.map _) rfl rfl
  | word64 =>
    rw [readInPlace]
    exact Cursor.readField_eq (Cursor.transacts_word64.map _) rfl rfl
  | scalar =>
    rw [readInPlace]
    exact Cursor.readField_eq (Cursor.transacts_scalar.map _) rfl rfl
  | scalars target =>
    rw [readOver_eq, readInPlace, width]
    by_cases hshort : d.length < target.length * Scalar.byteWidth
    · rw [if_pos hshort, if_neg (Nat.not_le.mpr hshort)]
      rfl
    · have hle := Nat.le_of_not_lt hshort
      have hfill : fill target (d.take (target.length * Scalar.byteWidth)) =
          scalarsAt d 0 target.length := by
        rw [fill_eq _ _ (Nat.le_of_eq (List.length_take_of_le hle).symm), toScalars_take,
          toScalars_eq_scalarsAt]
      rw [if_neg hshort, if_pos hle, hfill]
      rfl

theorem readInPlace_eq (kinds : List FieldKind) (d : Bytes) :
    readInPlace kinds d = readFields kinds d := by
  induction kinds generalizing d with
  | nil => rfl
  | cons kind kinds ih =>
    simp only [readInPlace, readFields, FieldKind.readInPlace_eq, ih]

/-- The field at the front is of the kind, and its bytes are those taken. -/
theorem FieldKind.fits_fieldAt (hle : kind.width ≤ d.length) :
    kind.Fits (kind.fieldAt d) ∧ (kind.fieldAt d).encode = d.take kind.width := by
  cases kind with
  | word32 => exact ⟨.word32 _, ofWord32_toWord32 (List.length_take_of_le hle)⟩
  | word64 => exact ⟨.word64 _, ofWord64_toWord64 (List.length_take_of_le hle)⟩
  | scalar => exact ⟨.scalar _, ofScalar_toScalar (List.length_take_of_le hle)⟩
  | scalars target =>
    refine ⟨.scalars _ _ (length_scalarsAt ..), ?_⟩
    have hread := toScalars_take target.length d
    rw [toScalars_eq_scalarsAt target.length d] at hread
    rw [fieldAt, Field.encode, ← hread]
    exact ofScalars_toScalars _ (List.length_take_of_le hle)

theorem FieldKind.Fits.length_encode (h : kind.Fits field) : field.encode.length = kind.width := by
  cases h with
  | word32 value => exact length_ofWord32 value
  | word64 value => exact length_ofWord64 value
  | scalar value => exact length_ofScalar value
  | scalars target values hlength =>
    rw [Field.encode, length_ofScalars, hlength]
    rfl

/-- The bytes of a field are read as the field. -/
theorem FieldKind.Fits.fieldAt_append (h : kind.Fits field) (rest : Bytes) :
    kind.fieldAt (field.encode ++ rest) = field := by
  cases h with
  | word32 value =>
    rw [fieldAt, Field.encode, List.take_left' (length_ofWord32 value), toWord32_ofWord32]
  | word64 value =>
    rw [fieldAt, Field.encode, List.take_left' (length_ofWord64 value), toWord64_ofWord64]
  | scalar value =>
    have hwidth : (ofScalar value).length = Scalar.byteWidth := length_ofScalar value
    rw [fieldAt, Field.encode, scalarAt, List.drop_zero, List.take_left' hwidth,
      toScalar_ofScalar]
  | scalars target values hlength =>
    rw [fieldAt, Field.encode, ← toScalars_eq_scalarsAt, ← toScalars_take, ← hlength,
      List.take_left' (length_ofScalars values), toScalars_ofScalars]

/-- One reading of a kind of field from `input`. -/
structure FieldKind.Reads (kind : FieldKind) (input : Bytes) (reading : FieldReading) : Prop where
  ok_iff : (∃ field, reading.outcome = .ok field) ↔ kind.width ≤ input.length
  /-- A field that is read is one of the kind, and just its bytes are taken. -/
  taken : ∀ field, reading.outcome = .ok field → kind.Fits field ∧
    field.encode = input.take kind.width ∧ reading.rest = input.drop kind.width
  /-- A run fills every element of its target, from eight bytes each. -/
  filled : ∀ field, reading.outcome = .ok field →
    reading.target.length = kind.target.length ∧ ∀ k < kind.target.length,
      reading.target[k]? = some (toScalar ((input.drop (k * 8)).take 8))
  /-- Nothing is read of a field that is cut short, and nothing is written over. -/
  unmoved : ∀ cause, reading.outcome = .error cause →
    reading.rest = input ∧ reading.target = kind.target

theorem getElem?_scalarsAt (d : Bytes) {n k : Nat} (hk : k < n) :
    (scalarsAt d 0 n)[k]? = some (toScalar ((d.drop (k * 8)).take 8)) := by
  rw [scalarsAt, List.getElem?_map, List.getElem?_range hk, Option.map_some, Nat.zero_add]
  rfl

theorem FieldKind.reads_readOver (kind : FieldKind) (d : Bytes) :
    kind.Reads d (kind.readOver d) := by
  rw [readOver_eq]
  by_cases hle : kind.width ≤ d.length
  · rw [if_pos hle]
    constructor
    · exact ⟨fun _ => hle, fun _ => ⟨_, rfl⟩⟩
    · rintro field ⟨⟩
      exact ⟨(fits_fieldAt hle).1, (fits_fieldAt hle).2, rfl⟩
    · rintro field ⟨⟩
      cases kind with
      | scalars target => exact ⟨length_scalarsAt .., fun k hk => getElem?_scalarsAt d hk⟩
      | _ => exact ⟨rfl, fun k hk => absurd hk (Nat.not_lt_zero k)⟩
    · rintro cause ⟨⟩
  · rw [if_neg hle]
    constructor
    · constructor
      · rintro ⟨field, ⟨⟩⟩
      · intro henough
        exact absurd henough hle
    · rintro field ⟨⟩
    · rintro field ⟨⟩
    · intro cause _
      exact ⟨rfl, rfl⟩

/-! ## Sequences -/

/-- The bytes left after readings of these kinds. -/
def leftAfter : List FieldKind → Bytes → Bytes
  | [], input => input
  | kind :: kinds, input => leftAfter kinds (kind.readOver input).rest

theorem leftAfter_append (before after : List FieldKind) (d : Bytes) :
    leftAfter (before ++ after) d = leftAfter after (leftAfter before d) := by
  induction before generalizing d with
  | nil => rfl
  | cons kind before ih => exact ih _

@[simp] theorem length_readFields (kinds : List FieldKind) (d : Bytes) :
    (readFields kinds d).length = kinds.length := by
  induction kinds generalizing d with
  | nil => rfl
  | cons kind kinds ih => simp [readFields, ih]

theorem readFields_append (before after : List FieldKind) (d : Bytes) :
    readFields (before ++ after) d =
      readFields before d ++ readFields after (leftAfter before d) := by
  induction before generalizing d with
  | nil => rfl
  | cons kind before ih =>
    simp only [List.cons_append, readFields, leftAfter]
    rw [ih]

/-- Fields written onto `out`, with `tail` behind them, are read back by readings of these kinds. -/
structure ReadsBack (kinds : List FieldKind) (fields : List Field) (out tail : Bytes) : Prop where
  written : writeFields out fields = out ++ fields.flatMap Field.encode
  outcomes : (readFields kinds (fields.flatMap Field.encode ++ tail)).map FieldReading.outcome =
    fields.map .ok
  targets : (readFields kinds (fields.flatMap Field.encode ++ tail)).map FieldReading.target =
    fields.map Field.values
  left : leftAfter kinds (fields.flatMap Field.encode ++ tail) = tail

theorem readsBack_of_fits (hfits : List.Forall₂ FieldKind.Fits kinds fields) (out tail : Bytes) :
    ReadsBack kinds fields out tail := by
  induction hfits with
  | nil => exact ⟨rfl, rfl, rfl, rfl⟩
  | @cons kind field kinds fields hfit hfits ih =>
    have hlength := hfit.length_encode
    -- the field at the front is read, and leaves the bytes of the others
    have hread : kind.readOver (field.encode ++ (fields.flatMap Field.encode ++ tail)) =
        ⟨.ok field, field.values, fields.flatMap Field.encode ++ tail⟩ := by
      rw [FieldKind.readOver_eq, if_pos (by rw [List.length_append]; omega), hfit.fieldAt_append,
        List.drop_left' hlength]
    refine ⟨rfl, ?_, ?_, ?_⟩
    · simp only [List.flatMap_cons, List.append_assoc, readFields, hread, List.map_cons,
        ih.outcomes]
    · simp only [List.flatMap_cons, List.append_assoc, readFields, hread, List.map_cons,
        ih.targets]
    · simp only [List.flatMap_cons, List.append_assoc, leftAfter, hread, ih.left]

/-- What readings of these kinds come to, one after the other, from any bytes. -/
structure ReadsOn (kinds : List FieldKind) (d : Bytes) : Prop where
  length_eq : (readFields kinds d).length = kinds.length
  /-- Each reading takes its width or nothing, from where the readings before it have left off. -/
  reads : ∀ before kind after, kinds = before ++ kind :: after →
    ∃ reading, (readFields kinds d)[before.length]? = some reading ∧
      kind.Reads (leftAfter before d) reading ∧ leftAfter (before ++ [kind]) d = reading.rest

theorem readsOn (kinds : List FieldKind) (d : Bytes) : ReadsOn kinds d where
  length_eq := length_readFields kinds d
  reads before kind after hkinds := by
    refine ⟨kind.readOver (leftAfter before d), ?_, kind.reads_readOver _, leftAfter_append ..⟩
    rw [hkinds, readFields_append, List.getElem?_append_right (by simp), length_readFields,
      Nat.sub_self]
    rfl

/-- Writing and reading of mixed sequences of fields. -/
structure FieldSequences : Prop where
  /-- Pushing the fields in place, element by element, is what writes them. -/
  pushFields_eq : ∀ out fields, pushFields out fields = writeFields out fields
  /-- Reading in place, with one cursor and over the caller's own scalars, is what reads them. -/
  readInPlace_eq : ∀ kinds d, readInPlace kinds d = readFields kinds d
  readsBack : ∀ kinds fields, List.Forall₂ FieldKind.Fits kinds fields →
    ∀ out tail, ReadsBack kinds fields out tail
  readsOn : ∀ kinds d, ReadsOn kinds d

/-- **Mixed sequences of fields are read as they were written**, and no reading takes a byte too
many: whatever the bytes, it takes its width or else changes neither the cursor nor its target. -/
theorem fieldSequences : FieldSequences where
  pushFields_eq := pushFields_eq
  readInPlace_eq := readInPlace_eq
  readsBack _ _ := readsBack_of_fits
  readsOn := readsOn

/-- All four kinds are read back. From twelve bytes a run of two scalars is not read, and the
narrower fields after it are. -/
theorem fieldSequences_mixed :
    let fields : List Field := [.word32 7, .scalars [⟨1⟩, ⟨2⟩], .word64 9, .scalar ⟨3⟩]
    let kinds : List FieldKind := [.word32, .scalars [⟨0⟩, ⟨0⟩], .word64, .scalar]
    let cut : List FieldKind := [.scalars [⟨5⟩, ⟨6⟩], .word32, .scalar]
    List.Forall₂ FieldKind.Fits kinds fields ∧ ReadsBack kinds fields [255] [1, 2] ∧
      ReadsOn cut (List.replicate 12 1) ∧
      ((readFields cut (List.replicate 12 1)).map fun reading =>
        (reading.outcome.isOk, reading.target, reading.rest.length)) =
          [(false, [⟨5⟩, ⟨6⟩], 12), (true, [], 8), (true, [], 0)] := by
  intro fields kinds cut
  have hfits : List.Forall₂ FieldKind.Fits kinds fields :=
    .cons (.word32 7) (.cons (.scalars _ _ rfl) (.cons (.word64 9) (.cons (.scalar ⟨3⟩) .nil)))
  exact ⟨hfits, fieldSequences.readsBack kinds fields hfits _ _, fieldSequences.readsOn _ _,
    by decide⟩

end ParticleStore
