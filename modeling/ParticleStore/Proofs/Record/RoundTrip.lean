/-
ParticleStore.Proofs.Record.RoundTrip — decoders read what encoders write, and nothing else.

Each decoder is described by one equivalence: it succeeds with a value and some bytes
left exactly when its input is the encoding of that value in front of those bytes. From
left to right this is that decoded bytes can be had again from the value, from
right to left that a value survives being written, whatever follows it. The
equivalences follow the layout: words and scalars, runs of scalars, points, headers,
and with `Record.run_decoder_eq_ok_iff` whole records.

A header is read only where the values that it declares follow, so its equivalence
has that as a third condition.
-/
import ParticleStore.Record.Consumption

namespace ParticleStore

variable {dim spacedim : Nat} {α β : Type} {input rest bytes : Bytes}

/-! ## Words and scalars -/

namespace LittleEndian

theorem ofWord32_toWord32 (hlength : bytes.length = 4) : ofWord32 (toWord32 bytes) = bytes := by
  have hlt : decode bytes < UInt32.size := by
    have hbound := decode_lt bytes
    rwa [hlength] at hbound
  rw [ofWord32, toWord32, UInt32.toNat_ofNat_of_lt' hlt, ← hlength]
  exact encode_decode bytes

theorem ofWord64_toWord64 (hlength : bytes.length = 8) : ofWord64 (toWord64 bytes) = bytes := by
  have hlt : decode bytes < UInt64.size := by
    have hbound := decode_lt bytes
    rwa [hlength] at hbound
  rw [ofWord64, toWord64, UInt64.toNat_ofNat_of_lt' hlt, ← hlength]
  exact encode_decode bytes

theorem ofScalar_toScalar (hlength : bytes.length = Scalar.byteWidth) :
    ofScalar (toScalar bytes) = bytes := ofWord64_toWord64 hlength

@[simp] theorem ofScalars_nil : ofScalars [] = [] := rfl

@[simp] theorem ofScalars_cons (x : Scalar) (values : List Scalar) :
    ofScalars (x :: values) = ofScalar x ++ ofScalars values := rfl

@[simp] theorem length_ofScalars (values : List Scalar) :
    (ofScalars values).length = values.length * Scalar.byteWidth := by
  induction values with
  | nil => rfl
  | cons x values ih =>
    rw [ofScalars_cons, List.length_append, ih, length_ofScalar, List.length_cons, Nat.succ_mul,
      Nat.add_comm]
    rfl

theorem toScalars_ofScalars (values : List Scalar) :
    toScalars values.length (ofScalars values) = values := by
  induction values with
  | nil => rfl
  | cons x values ih =>
    have hwidth : (ofScalar x).length = Scalar.byteWidth := length_ofScalar x
    rw [List.length_cons, toScalars, ofScalars_cons, List.take_left' hwidth,
      List.drop_left' hwidth, toScalar_ofScalar, ih]

theorem ofScalars_toScalars (n : Nat) (hlength : bytes.length = n * Scalar.byteWidth) :
    ofScalars (toScalars n bytes) = bytes := by
  induction n generalizing bytes with
  | zero =>
    obtain rfl : bytes = [] := List.eq_nil_of_length_eq_zero (by simpa using hlength)
    rfl
  | succ n ih =>
    rw [Nat.succ_mul] at hlength
    have hfront : (bytes.take Scalar.byteWidth).length = Scalar.byteWidth := by
      rw [List.length_take]
      omega
    have hback : (bytes.drop Scalar.byteWidth).length = n * Scalar.byteWidth := by
      rw [List.length_drop]
      omega
    rw [toScalars, ofScalars_cons, ofScalar_toScalar hfront, ih hback, List.take_append_drop]

end LittleEndian

open LittleEndian

/-! ## Decoders -/

namespace Decoder

theorem run_bind_eq_ok_iff {d : Decoder α} {f : α → Decoder β} {b : β} :
    (d >>= f).run input = .ok (b, rest) ↔
      ∃ a middle, d.run input = .ok (a, middle) ∧ (f a).run middle = .ok (b, rest) := by
  refine ⟨run_bind_eq_ok, ?_⟩
  rintro ⟨a, middle, hfirst, hsecond⟩
  rw [StateT.run_bind, hfirst]
  exact hsecond

theorem run_pure_eq_ok_iff {a b : α} :
    (pure a : Decoder α).run input = .ok (b, rest) ↔ a = b ∧ input = rest := by
  show (Except.ok (a, input) : Except RecordError (α × Bytes)) = .ok (b, rest) ↔ _
  simp

/-- A decoder that only looks at the value of another one. -/
theorem run_map_eq_ok_iff {d : Decoder α} {f : α → β} {b : β} :
    (do return f (← d) : Decoder β).run input = .ok (b, rest) ↔
      ∃ a, d.run input = .ok (a, rest) ∧ f a = b := by
  rw [run_bind_eq_ok_iff]
  simp only [run_pure_eq_ok_iff]
  constructor
  · rintro ⟨a, middle, hrun, hvalue, rfl⟩
    exact ⟨a, hrun, hvalue⟩
  · rintro ⟨a, hrun, hvalue⟩
    exact ⟨a, rest, hrun, hvalue, rfl⟩

theorem run_available_eq_ok_iff {n : Nat} :
    available.run input = .ok (n, rest) ↔ input.length = n ∧ input = rest := by
  show (Except.ok (input.length, input) : Except RecordError (Nat × Bytes)) = .ok (n, rest) ↔ _
  simp

/-- A decoder that is refused under a condition. -/
theorem run_throw_ite_eq_ok_iff {c : Prop} [Decidable c] {e : RecordError} {f : β → Decoder α}
    {d : Decoder α} {a : α} :
    (if c then throw e >>= f else d).run input = .ok (a, rest) ↔
      ¬ c ∧ d.run input = .ok (a, rest) := by
  by_cases hc : c
  · rw [if_pos hc]
    constructor
    · intro hrun
      cases hrun
    · rintro ⟨hnot, -⟩
      exact absurd hc hnot
  · rw [if_neg hc]
    exact ⟨fun hrun => ⟨hc, hrun⟩, And.right⟩

theorem run_bytes_eq_ok_iff {width : Nat} {tooFew : Nat → RecordError} :
    (Decoder.bytes width tooFew).run input = .ok (bytes, rest) ↔
      bytes.length = width ∧ input = bytes ++ rest := by
  rw [run_bytes]
  constructor
  · intro hrun
    split at hrun
    · rename_i hle
      cases hrun
      exact ⟨List.length_take_of_le hle, (List.take_append_drop width input).symm⟩
    · cases hrun
  · rintro ⟨rfl, rfl⟩
    rw [if_pos (by simp), List.take_left, List.drop_left]

/-- A decoder of values that are written in a fixed width, if every such bytes are some value's. -/
theorem run_fixed_eq_ok_iff {width : Nat} {tooFew : Nat → RecordError} {write : α → Bytes}
    {read : Bytes → α} {a : α} (length_write : ∀ a, (write a).length = width)
    (read_write : ∀ a, read (write a) = a)
    (write_read : ∀ bytes, bytes.length = width → write (read bytes) = bytes) :
    (do return read (← Decoder.bytes width tooFew) : Decoder α).run input = .ok (a, rest) ↔
      input = write a ++ rest := by
  rw [run_map_eq_ok_iff]
  simp only [run_bytes_eq_ok_iff]
  constructor
  · rintro ⟨bytes, ⟨hlength, rfl⟩, rfl⟩
    rw [write_read bytes hlength]
  · rintro rfl
    exact ⟨_, ⟨length_write a, rfl⟩, read_write a⟩

theorem run_word32_eq_ok_iff {n : UInt32} :
    word32.run input = .ok (n, rest) ↔ input = ofWord32 n ++ rest :=
  run_fixed_eq_ok_iff length_ofWord32 toWord32_ofWord32 fun _ => ofWord32_toWord32

theorem run_word64_eq_ok_iff {n : UInt64} :
    word64.run input = .ok (n, rest) ↔ input = ofWord64 n ++ rest :=
  run_fixed_eq_ok_iff length_ofWord64 toWord64_ofWord64 fun _ => ofWord64_toWord64

theorem run_scalar_eq_ok_iff {x : Scalar} :
    scalar.run input = .ok (x, rest) ↔ input = ofScalar x ++ rest :=
  run_fixed_eq_ok_iff length_ofScalar toScalar_ofScalar fun _ => ofScalar_toScalar

theorem run_scalars_eq_ok_iff {n : Nat} {values : List Scalar} :
    (scalars n).run input = .ok (values, rest) ↔
      values.length = n ∧ input = ofScalars values ++ rest := by
  simp only [scalars, run_map_eq_ok_iff, run_bytes_eq_ok_iff]
  constructor
  · rintro ⟨bytes, ⟨hlength, rfl⟩, rfl⟩
    rw [ofScalars_toScalars n hlength]
    exact ⟨length_toScalars n bytes, rfl⟩
  · rintro ⟨rfl, rfl⟩
    exact ⟨_, ⟨length_ofScalars values, rfl⟩, toScalars_ofScalars values⟩

end Decoder

open Decoder

/-! ## Headers -/

namespace Header

variable {h : Header dim spacedim} {head : Bytes}

theorem run_point_eq_ok_iff {p : Point dim} :
    (point dim).run input = .ok (p, rest) ↔ input = ofScalars p.coords ++ rest := by
  induction dim generalizing input rest with
  | zero =>
    obtain ⟨coords, hlength⟩ := p
    obtain rfl := List.eq_nil_of_length_eq_zero hlength
    rw [point, run_pure_eq_ok_iff]
    simp
  | succ dim ih =>
    simp only [point, run_bind_eq_ok_iff, run_scalar_eq_ok_iff, ih, run_pure_eq_ok_iff]
    constructor
    · rintro ⟨x, _, rfl, q, _, rfl, rfl, rfl⟩
      rw [ofScalars_cons, List.append_assoc]
    · rintro rfl
      obtain ⟨coords, hlength⟩ := p
      obtain ⟨x, coords, rfl⟩ := List.exists_cons_of_length_eq_add_one hlength
      have hrest : coords.length = dim := by simpa using hlength
      exact ⟨x, _, List.append_assoc .., ⟨coords, hrest⟩, _, rfl, rfl, rfl⟩

/-- The fields of a header, one after the other. -/
theorem encode_eq_ok_iff :
    h.encode = .ok head ↔ h.count < UInt32.size ∧
      head = ofScalars h.location.coords ++ (ofScalars h.reference.coords ++
        (ofWord64 h.id.number ++ ofWord32 (UInt32.ofNat h.count))) := by
  unfold encode
  split
  · rename_i hcount
    simp only [Except.ok.injEq, hcount, true_and, List.append_assoc]
    exact eq_comm
  · rename_i hcount
    simp [hcount]

theorem length_encode (henc : h.encode = .ok head) : head.length = byteWidth dim spacedim := by
  obtain ⟨-, rfl⟩ := encode_eq_ok_iff.mp henc
  simp only [List.length_append, length_ofScalars, h.location.length_coords,
    h.reference.length_coords, length_ofWord64, length_ofWord32, byteWidth, ParticleId.byteWidth,
    countWidth, Nat.add_mul]
  omega

/-- A header is read where its bytes stand and the values that it declares follow. -/
theorem run_decoder_eq_ok_iff :
    (decoder dim spacedim).run input = .ok (h, rest) ↔
      ∃ head, h.encode = .ok head ∧ input = head ++ rest ∧
        h.count * Scalar.byteWidth ≤ rest.length := by
  unfold decoder
  simp only [run_bind_eq_ok_iff, run_point_eq_ok_iff, run_word64_eq_ok_iff, run_word32_eq_ok_iff,
    run_available_eq_ok_iff, run_throw_ite_eq_ok_iff, run_pure_eq_ok_iff]
  constructor
  · rintro ⟨location, _, rfl, reference, _, rfl, id, _, rfl, count, _, rfl, _, _, ⟨rfl, rfl⟩, hlong,
      rfl, rfl⟩
    refine ⟨_, encode_eq_ok_iff.mpr ⟨count.toNat_lt, rfl⟩, ?_, Nat.le_of_not_lt hlong⟩
    simp only [UInt32.ofNat_toNat, List.append_assoc]
  · rintro ⟨head, henc, rfl, hle⟩
    obtain ⟨hcount, rfl⟩ := encode_eq_ok_iff.mp henc
    have hword : (UInt32.ofNat h.count).toNat = h.count := UInt32.toNat_ofNat_of_lt' hcount
    refine ⟨h.location, _, List.append_assoc .., h.reference, _, List.append_assoc .., h.id.number, _,
      List.append_assoc .., UInt32.ofNat h.count, _, rfl, _, _, ⟨rfl, rfl⟩, ?_, ?_, rfl⟩
    · rw [hword]
      exact Nat.not_lt_of_le hle
    · rw [hword]

end Header

/-! ## Records -/

namespace Record

variable {r : Record dim spacedim}

theorem encode_eq_ok_iff :
    r.encode = .ok bytes ↔
      ∃ head, r.header.encode = .ok head ∧ bytes = head ++ ofScalars r.values := by
  unfold encode
  cases r.header.encode with
  | error cause => simp [bind, Except.bind]
  | ok head => simp [bind, Except.bind, pure, Except.pure, eq_comm]

/-- A record takes its width. -/
theorem length_encode (henc : r.encode = .ok bytes) :
    bytes.length = byteWidth dim spacedim r.values.length := by
  obtain ⟨head, hhead, rfl⟩ := encode_eq_ok_iff.mp henc
  rw [List.length_append, Header.length_encode hhead, length_ofScalars, byteWidth]

/-- **Records round-trip.** A record is read exactly where its bytes stand, whatever bytes follow
them. -/
theorem run_decoder_eq_ok_iff :
    (decoder dim spacedim).run input = .ok (r, rest) ↔
      ∃ bytes, r.encode = .ok bytes ∧ input = bytes ++ rest := by
  unfold decoder
  simp only [run_bind_eq_ok_iff, Header.run_decoder_eq_ok_iff, run_scalars_eq_ok_iff,
    run_pure_eq_ok_iff]
  constructor
  · rintro ⟨h, _, ⟨head, hhead, rfl, -⟩, values, _, ⟨hlength, rfl⟩, rfl, rfl⟩
    have hheader : (ofHeader h values).header = h := by rw [header, ofHeader, hlength]
    refine ⟨_, encode_eq_ok_iff.mpr ⟨head, by rw [hheader]; exact hhead, rfl⟩, ?_⟩
    rw [List.append_assoc]
    rfl
  · rintro ⟨bytes, henc, rfl⟩
    obtain ⟨head, hhead, rfl⟩ := encode_eq_ok_iff.mp henc
    refine ⟨r.header, _, ⟨head, hhead, List.append_assoc .., ?_⟩, r.values, rest, ⟨rfl, rfl⟩, rfl,
      rfl⟩
    rw [List.length_append, length_ofScalars]
    exact Nat.le_add_right _ _

end Record

end ParticleStore
