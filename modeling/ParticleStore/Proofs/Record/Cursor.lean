/-
ParticleStore.Proofs.Record.Cursor — reading and writing in place.

A decoder that fails gives no position, so nothing can be said of where it has stopped. Here
the same fields are read through a cursor that belongs to the caller and is moved with every
field: a reading that fails half way leaves it in the middle (`Cursor`). A field by itself is
looked for before the cursor moves. A header is many fields, so it is read with a cursor of its
own that the caller's is set to at the end (`tentative`). Both move the caller's cursor only where
they succeed, and then do what the decoder does (`Transacts`).

Writing in place pushes one field after the other onto the bytes that are there, once nothing
can go wrong any more. `Header.oneToOne` says what headers come to in both directions.
-/
import ParticleStore.Proofs.Record.Layout

namespace ParticleStore

variable {dim spacedim : Nat} {α β : Type} {input rest out : Bytes}

open LittleEndian

/-- Reading through a cursor of the caller's, which stays wherever the reading ends. -/
abbrev Cursor (α : Type) : Type := ExceptT RecordError (StateM Bytes) α

namespace Cursor

/-- The outcome, and the bytes that the cursor stands before. -/
def exec (c : Cursor α) (input : Bytes) : Except RecordError α × Bytes := c.run.run input

/-- How many bytes are left. -/
def available : Cursor Nat := return (← get).length

/-- The next `width` bytes, or the error for how many there are instead. -/
def bytes (width : Nat) (tooFew : Nat → RecordError) : Cursor Bytes := do
  let input ← get
  if width ≤ input.length then
    set (input.drop width)
    return input.take width
  else throw (tooFew input.length)

/-- A 32-bit word. -/
def word32 : Cursor UInt32 := return toWord32 (← bytes 4 (.truncatedField "u32" 4))

/-- A 64-bit word. -/
def word64 : Cursor UInt64 := return toWord64 (← bytes 8 (.truncatedField "u64" 8))

/-- A scalar. -/
def scalar : Cursor Scalar := do
  let width := Scalar.byteWidth
  return toScalar (← bytes width (.truncatedField "scalar" width))

/-- A point, coordinate by coordinate. -/
def point : (dim : Nat) → Cursor (Point dim)
  | 0 => return ⟨[], rfl⟩
  | dim + 1 => do
    let x ← scalar
    let p ← point dim
    return ⟨x :: p.coords, by rw [List.length_cons, p.length_coords]⟩

/-- Read with a cursor of its own, and set the caller's to it upon success. -/
def tentative (c : Cursor α) : Cursor α := do
  let input ← get
  match c.exec input with
  | (.ok a, rest) =>
    set rest
    return a
  | (.error cause, _) => throw cause

/-- A header, if the property values that it declares follow. -/
def header (dim spacedim : Nat) : Cursor (Header dim spacedim) := tentative do
  let location ← point spacedim
  let reference ← point dim
  let id ← word64
  let count ← word32
  let needed := count.toNat * Scalar.byteWidth
  let available ← available
  if available < needed then
    throw (.truncatedRecord count.toNat needed available)
  return { location, reference, id := ⟨id⟩, count := count.toNat }

/-! ## Cursors and decoders -/

@[simp] theorem exec_pure (a : α) (input : Bytes) :
    (pure a : Cursor α).exec input = (.ok a, input) := rfl

@[simp] theorem exec_throw (cause : RecordError) (input : Bytes) :
    (throw cause : Cursor α).exec input = (.error cause, input) := rfl

@[simp] theorem exec_get (input : Bytes) : (get : Cursor Bytes).exec input = (.ok input, input) :=
  rfl

@[simp] theorem exec_set (input rest : Bytes) :
    (set rest : Cursor PUnit).exec input = (.ok ⟨⟩, rest) := rfl

theorem exec_bind (c : Cursor α) (f : α → Cursor β) (input : Bytes) :
    (c >>= f).exec input =
      match c.exec input with
      | (.ok a, rest) => (f a).exec rest
      | (.error cause, rest) => (.error cause, rest) := by
  show ((c >>= f).run).run input =
    match c.run.run input with | (.ok a, rest) => _ | (.error _, rest) => _
  rw [ExceptT.run_bind, StateT.run_bind]
  cases c.run.run input with
  | mk result rest => cases result <;> rfl

/-- The cursor reads what the decoder reads. Where the decoder fails it fails for the same
cause, wherever it has come to. -/
def Follows (c : Cursor α) (d : Decoder α) : Prop := ∀ input,
  match d.run input with
  | .ok (a, rest) => c.exec input = (.ok a, rest)
  | .error cause => (c.exec input).1 = .error cause

/-- The cursor reads what the decoder reads, and where the decoder fails it has not moved. -/
def Transacts (c : Cursor α) (d : Decoder α) : Prop := ∀ input,
  c.exec input =
    match d.run input with
    | .ok (a, rest) => (.ok a, rest)
    | .error cause => (.error cause, input)

theorem Transacts.follows {c : Cursor α} {d : Decoder α} (h : Transacts c d) : Follows c d := by
  intro input
  rw [h input]
  cases d.run input with
  | ok result => rfl
  | error cause => rfl

theorem follows_pure (a : α) : Follows (pure a) (pure a) := fun _ => rfl

theorem follows_throw (cause : RecordError) :
    Follows (throw cause : Cursor α) (throw cause) := fun _ => rfl

theorem follows_available : Follows available Decoder.available := fun _ => rfl

/-- Fields one after the other are read alike if each of them is. -/
theorem Follows.bind {c : Cursor α} {d : Decoder α} {f : α → Cursor β} {g : α → Decoder β}
    (hc : Follows c d) (hf : ∀ a, Follows (f a) (g a)) : Follows (c >>= f) (d >>= g) := by
  intro input
  have hfirst := hc input
  rw [exec_bind, Decoder.run_bind]
  cases hd : d.run input with
  | error cause =>
    rw [hd] at hfirst
    cases hresult : c.exec input with
    | mk result rest =>
      rw [hresult] at hfirst
      cases hfirst
      rfl
  | ok result =>
    rw [hd] at hfirst
    rw [hfirst]
    exact hf _ _

theorem transacts_bytes (width : Nat) (tooFew : Nat → RecordError) :
    Transacts (bytes width tooFew) (Decoder.bytes width tooFew) := by
  intro input
  rw [Decoder.run_bytes, bytes, exec_bind, exec_get]
  by_cases hle : width ≤ input.length
  · simp only [if_pos hle]
    rfl
  · simp only [if_neg hle]
    rfl

/-- A look at the value that was read moves nothing. -/
theorem Transacts.map {c : Cursor α} {d : Decoder α} (h : Transacts c d) (f : α → β) :
    Transacts (do return f (← c)) (do return f (← d)) := by
  intro input
  rw [exec_bind, Decoder.run_bind, h input]
  cases d.run input with
  | ok result => rfl
  | error cause => rfl

theorem transacts_word32 : Transacts word32 Decoder.word32 := (transacts_bytes _ _).map _

theorem transacts_word64 : Transacts word64 Decoder.word64 := (transacts_bytes _ _).map _

theorem transacts_scalar : Transacts scalar Decoder.scalar := (transacts_bytes _ _).map _

/-- A point is many scalars, so the cursor may have moved when one of them is cut short. -/
theorem follows_point (dim : Nat) : Follows (point dim) (Header.point dim) := by
  induction dim with
  | zero => exact follows_pure _
  | succ dim ih =>
    exact transacts_scalar.follows.bind fun x => ih.bind fun p => follows_pure _

theorem exec_tentative (c : Cursor α) (input : Bytes) :
    (tentative c).exec input =
      match c.exec input with
      | (.ok a, rest) => (.ok a, rest)
      | (.error cause, _) => (.error cause, input) := by
  rw [tentative, exec_bind, exec_get]
  simp only []
  cases c.exec input with
  | mk result rest => cases result <;> rfl

/-- With a cursor of its own a reading moves the caller's only upon success. -/
theorem Follows.tentative {c : Cursor α} {d : Decoder α} (h : Follows c d) :
    Transacts (tentative c) d := by
  intro input
  have hc := h input
  rw [exec_tentative]
  cases hd : d.run input with
  | ok result =>
    rw [hd] at hc
    rw [hc]
  | error cause =>
    rw [hd] at hc
    cases hresult : c.exec input with
    | mk result rest =>
      rw [hresult] at hc
      cases hc
      rfl

theorem transacts_header (dim spacedim : Nat) :
    Transacts (header dim spacedim) (Header.decoder dim spacedim) := by
  apply Follows.tentative
  refine (follows_point _).bind fun location => (follows_point _).bind fun reference =>
    transacts_word64.follows.bind fun id => transacts_word32.follows.bind fun count =>
      follows_available.bind fun available => ?_
  dsimp only
  split
  · exact (follows_throw _).bind fun _ => follows_pure _
  · exact follows_pure _

end Cursor

open Cursor

/-! ## Writing in place -/

/-- Push scalars onto the bytes that are there, one after the other. -/
def pushScalars (out : Bytes) (values : List Scalar) : Bytes :=
  values.foldl (fun out x => out ++ ofScalar x) out

theorem pushScalars_eq (out : Bytes) (values : List Scalar) :
    pushScalars out values = out ++ ofScalars values := by
  induction values generalizing out with
  | nil => simp [pushScalars]
  | cons x values ih =>
    have hstep : pushScalars out (x :: values) = pushScalars (out ++ ofScalar x) values := rfl
    rw [hstep, ih, ofScalars_cons, List.append_assoc]

namespace Header

variable {h : Header dim spacedim} {head : Bytes}

/-- Push the fields of a header onto the bytes that are there, once its count is known to fit. -/
def push (h : Header dim spacedim) (out : Bytes) : Except RecordError Unit × Bytes :=
  if h.count < UInt32.size then
    let out := pushScalars out h.location.coords
    let out := pushScalars out h.reference.coords
    let out := out ++ ofWord64 h.id.number
    let out := out ++ ofWord32 (UInt32.ofNat h.count)
    (.ok (), out)
  else (.error (.countTooLarge h.count), out)

theorem push_eq (h : Header dim spacedim) (out : Bytes) :
    h.push out =
      match h.encode with
      | .ok head => (.ok (), out ++ head)
      | .error cause => (.error cause, out) := by
  unfold push encode
  split
  · simp only [pushScalars_eq, List.append_assoc]
  · rfl

/-! ## Headers in both directions -/

/-- A header is read in place by position, and the cursor moves only if it is without a flaw. -/
theorem exec_header (d : Bytes) :
    (Cursor.header dim spacedim).exec d =
      match flaw? dim spacedim d with
      | some cause => (.error cause, d)
      | none => (.ok (front dim spacedim d), d.drop (byteWidth dim spacedim)) := by
  rw [transacts_header dim spacedim d, run_decoder]
  cases flaw? dim spacedim d <;> rfl

/-- The count of a header is the one that its bytes declare. -/
theorem declared_append (henc : h.encode = .ok head) (rest : Bytes) :
    declared dim spacedim (head ++ rest) = h.count := by
  have hlength := length_encode henc
  obtain ⟨hcount, rfl⟩ := encode_eq_ok_iff.mp henc
  have hwidth : (ofScalars h.location.coords ++ (ofScalars h.reference.coords ++
      ofWord64 h.id.number)).length = byteWidth dim spacedim - countWidth := by
    simp only [List.length_append, length_ofWord32, countWidth] at hlength ⊢
    omega
  have hbytes : ofScalars h.location.coords ++ (ofScalars h.reference.coords ++
      (ofWord64 h.id.number ++ ofWord32 (UInt32.ofNat h.count))) ++ rest =
        ofScalars h.location.coords ++ (ofScalars h.reference.coords ++ ofWord64 h.id.number) ++
          (ofWord32 (UInt32.ofNat h.count) ++ rest) := by
    simp only [List.append_assoc]
  have hfield : (ofWord32 (UInt32.ofNat h.count)).length = countWidth := length_ofWord32 _
  rw [declared, hbytes, List.drop_left' hwidth, List.take_left' hfield, toWord32_ofWord32,
    UInt32.toNat_ofNat_of_lt' hcount]

/-- The bytes of a header are read again if enough bytes for its values follow. -/
theorem exec_header_append (henc : h.encode = .ok head) (rest : Bytes) :
    (Cursor.header dim spacedim).exec (head ++ rest) =
      if h.count * Scalar.byteWidth ≤ rest.length then (.ok h, rest)
      else (.error (.truncatedRecord h.count (h.count * Scalar.byteWidth) rest.length),
        head ++ rest) := by
  split
  · rename_i hle
    have hrun : (decoder dim spacedim).run (head ++ rest) = .ok (h, rest) :=
      run_decoder_eq_ok_iff.mpr ⟨head, henc, rfl, hle⟩
    rw [transacts_header dim spacedim, hrun]
  · rename_i hshort
    have hlength : (head ++ rest).length = byteWidth dim spacedim + rest.length := by
      rw [List.length_append, length_encode henc]
    have hflaw : flaw? dim spacedim (head ++ rest) =
        some (.truncatedRecord h.count (h.count * Scalar.byteWidth) rest.length) := by
      simp only [flaw?, declared_append henc, hlength, Record.byteWidth]
      rw [if_neg (by omega), if_pos (by omega), Nat.add_sub_cancel_left]
    rw [exec_header, hflaw]

theorem exists_exec_header_eq_ok_iff (d : Bytes) :
    (∃ (h : Header dim spacedim) (rest : Bytes),
      (Cursor.header dim spacedim).exec d = (.ok h, rest)) ↔ byteWidth dim spacedim ≤ d.length ∧
        declared dim spacedim d * Scalar.byteWidth ≤ (d.drop (byteWidth dim spacedim)).length := by
  have hok : (∃ (h : Header dim spacedim) (rest : Bytes),
      (Cursor.header dim spacedim).exec d = (.ok h, rest)) ↔ flaw? dim spacedim d = none := by
    rw [exec_header]
    cases flaw? dim spacedim d <;> simp
  rw [hok, flaw?_eq_none_iff, Record.byteWidth, List.length_drop]
  omega

theorem push_of_exec_header {d : Bytes}
    (hexec : (Cursor.header dim spacedim).exec d = (.ok h, rest)) :
    h.count = declared dim spacedim d ∧ rest = d.drop (byteWidth dim spacedim) ∧
      ∀ out, h.push out = (.ok (), out ++ d.take (byteWidth dim spacedim)) := by
  rw [exec_header] at hexec
  cases hflaw : flaw? dim spacedim d with
  | some cause =>
    rw [hflaw] at hexec
    cases hexec
  | none =>
    rw [hflaw] at hexec
    cases hexec
    have hrun := run_decoder dim spacedim d
    rw [hflaw] at hrun
    obtain ⟨head, henc, heq, -⟩ := run_decoder_eq_ok_iff.mp hrun
    have hhead : head = d.take (byteWidth dim spacedim) :=
      List.append_cancel_right (heq.symm.trans (List.take_append_drop _ d).symm)
    refine ⟨rfl, rfl, fun out => ?_⟩
    rw [push_eq, henc, hhead]

/-- What writing and reading a header come to in these dimensions. -/
structure OneToOne (dim spacedim : Nat) : Prop where
  /-- Writing in place is the encoder, and leaves the bytes alone where that fails. -/
  push_eq : ∀ (h : Header dim spacedim) (out : Bytes), h.push out =
    match h.encode with
    | .ok head => (.ok (), out ++ head)
    | .error cause => (.error cause, out)
  /-- Reading in place is the decoder, and leaves the cursor alone where that fails. -/
  transacts : Transacts (Cursor.header dim spacedim) (Header.decoder dim spacedim)
  /-- A count that fits in 32 bits is written, and what is written is read again, whatever bytes
  are before and behind it, if these are enough for the values declared. -/
  written : ∀ (h : Header dim spacedim) (out : Bytes), h.count < UInt32.size →
    ∃ head, h.push out = (.ok (), out ++ head) ∧ head.length = byteWidth dim spacedim ∧
      ∀ rest, (Cursor.header dim spacedim).exec (head ++ rest) =
        if h.count * Scalar.byteWidth ≤ rest.length then (.ok h, rest)
        else (.error (.truncatedRecord h.count (h.count * Scalar.byteWidth) rest.length),
          head ++ rest)
  /-- A larger count is refused, and nothing is written. -/
  refused : ∀ (h : Header dim spacedim) (out : Bytes), UInt32.size ≤ h.count →
    h.push out = (.error (.countTooLarge h.count), out)
  /-- A header is read from all bytes that are enough for it and for the values declared. -/
  accepted_iff : ∀ d, (∃ (h : Header dim spacedim) (rest : Bytes),
    (Cursor.header dim spacedim).exec d = (.ok h, rest)) ↔ byteWidth dim spacedim ≤ d.length ∧
      declared dim spacedim d * Scalar.byteWidth ≤ (d.drop (byteWidth dim spacedim)).length
  /-- What is read is written as the bytes that it was read from. -/
  rewritten : ∀ d (h : Header dim spacedim) rest,
    (Cursor.header dim spacedim).exec d = (.ok h, rest) →
      h.count = declared dim spacedim d ∧ rest = d.drop (byteWidth dim spacedim) ∧
        ∀ out, h.push out = (.ok (), out ++ d.take (byteWidth dim spacedim))
  /-- A reading that fails leaves the cursor where it was. -/
  unmoved : ∀ d cause rest, (Cursor.header dim spacedim).exec d = (.error cause, rest) → rest = d

/-- **The header codec is one-to-one**, in all dimensions: every header whose count fits is written
in the same number of bytes and read again from them, every string of bytes that is long enough is
read, and written again as it was. What fails changes neither the bytes nor the cursor. -/
theorem oneToOne (dim spacedim : Nat) : OneToOne dim spacedim where
  push_eq := push_eq
  transacts := transacts_header dim spacedim
  written h out hcount := by
    obtain ⟨head, henc⟩ : ∃ head, h.encode = .ok head := ⟨_, if_pos hcount⟩
    exact ⟨head, by rw [push_eq, henc], length_encode henc, exec_header_append henc⟩
  refused h out hcount := if_neg (Nat.not_lt.mpr hcount)
  accepted_iff := exists_exec_header_eq_ok_iff
  rewritten _ _ _ := push_of_exec_header
  unmoved d cause rest hexec := by
    rw [exec_header] at hexec
    cases hflaw : flaw? dim spacedim d with
    | some cause =>
      rw [hflaw] at hexec
      cases hexec
      rfl
    | none =>
      rw [hflaw] at hexec
      cases hexec

end Header

end ParticleStore
