/-
ParticleStore.Proofs.Record.Layout — records by the positions of their fields.

A decoder of records goes from field to field, and stops at the first one that is cut
short. Here its result is given at once, for any bytes: which bytes are too few and what is
then said of them (`Header.flaw?`), and where the fields of a record stand when there are
enough (`Record.front`). `Record.run_decoder` puts the two together. The fields of fixed
width come first, so a position depends on the dimensions only, and the last of these
fields says how many values follow.
-/
import ParticleStore.Proofs.Record.RoundTrip

namespace ParticleStore

variable {dim spacedim : Nat} {α β : Type} {d : Bytes}

/-! ## Scalars at a position -/

namespace LittleEndian

/-- The scalar in the bytes from a position on. -/
def scalarAt (d : Bytes) (position : Nat) : Scalar :=
  toScalar ((d.drop position).take Scalar.byteWidth)

/-- `n` scalars one after the other, from a position on. -/
def scalarsAt (d : Bytes) (position n : Nat) : List Scalar :=
  (List.range n).map fun k => scalarAt d (position + k * Scalar.byteWidth)

@[simp] theorem length_scalarsAt (d : Bytes) (position n : Nat) :
    (scalarsAt d position n).length = n := by
  simp [scalarsAt]

theorem scalarsAt_succ (d : Bytes) (position n : Nat) :
    scalarsAt d position (n + 1) =
      scalarAt d position :: scalarsAt d (position + Scalar.byteWidth) n := by
  rw [scalarsAt, List.range_succ_eq_map, List.map_cons, List.map_map, Nat.zero_mul, Nat.add_zero,
    scalarsAt]
  refine congrArg _ (List.map_congr_left fun k _ => ?_)
  rw [Function.comp_apply, Nat.succ_mul, Nat.add_comm (k * _), Nat.add_assoc]

/-- Positions count from the front of what is left. -/
theorem scalarsAt_drop (d : Bytes) (skipped position n : Nat) :
    scalarsAt (d.drop skipped) position n = scalarsAt d (skipped + position) n := by
  simp only [scalarsAt, scalarAt, List.drop_drop, Nat.add_assoc]

theorem toScalars_eq_scalarsAt (n : Nat) (d : Bytes) : toScalars n d = scalarsAt d 0 n := by
  induction n generalizing d with
  | zero => rfl
  | succ n ih =>
    rw [toScalars, ih, scalarsAt_succ, scalarsAt_drop, scalarAt, List.drop_zero, Nat.zero_add,
      Nat.add_zero]

/-- A run of scalars takes no notice of the bytes behind it. -/
theorem toScalars_take (n : Nat) (d : Bytes) :
    toScalars n (d.take (n * Scalar.byteWidth)) = toScalars n d := by
  induction n generalizing d with
  | zero => rfl
  | succ n ih =>
    have hwidth : (n + 1) * Scalar.byteWidth - Scalar.byteWidth = n * Scalar.byteWidth := by
      rw [Nat.succ_mul, Nat.add_sub_cancel]
    have hle : Scalar.byteWidth ≤ (n + 1) * Scalar.byteWidth := Nat.le_mul_of_pos_left _ n.succ_pos
    rw [toScalars, toScalars, List.take_take, Nat.min_eq_left hle, List.drop_take, hwidth, ih]

end LittleEndian

open LittleEndian

/-! ## Single fields -/

namespace Decoder

theorem run_bind (x : Decoder α) (f : α → Decoder β) (d : Bytes) :
    (x >>= f).run d =
      match x.run d with
      | .ok (a, rest) => (f a).run rest
      | .error cause => .error cause := by
  rw [StateT.run_bind]
  cases x.run d <;> rfl

theorem run_available (d : Bytes) : available.run d = .ok (d.length, d) := rfl

/-- A field of fixed width is read, or is cut short. -/
theorem run_fixed (width : Nat) (tooFew : Nat → RecordError) (read : Bytes → α) (d : Bytes) :
    (do return read (← Decoder.bytes width tooFew) : Decoder α).run d =
      if width ≤ d.length then .ok (read (d.take width), d.drop width)
      else .error (tooFew d.length) := by
  rw [run_bind, run_bytes]
  by_cases hle : width ≤ d.length
  · rw [if_pos hle, if_pos hle]
    rfl
  · rw [if_neg hle, if_neg hle]

theorem run_scalar (d : Bytes) :
    scalar.run d =
      if Scalar.byteWidth ≤ d.length then .ok (scalarAt d 0, d.drop Scalar.byteWidth)
      else .error (.truncatedField "scalar" Scalar.byteWidth d.length) :=
  run_fixed ..

theorem run_word64 (d : Bytes) :
    word64.run d =
      if 8 ≤ d.length then .ok (toWord64 (d.take 8), d.drop 8)
      else .error (.truncatedField "u64" 8 d.length) :=
  run_fixed ..

theorem run_word32 (d : Bytes) :
    word32.run d =
      if 4 ≤ d.length then .ok (toWord32 (d.take 4), d.drop 4)
      else .error (.truncatedField "u32" 4 d.length) :=
  run_fixed ..

theorem run_scalars (n : Nat) (d : Bytes) :
    (scalars n).run d =
      if n * Scalar.byteWidth ≤ d.length then
        .ok (scalarsAt d 0 n, d.drop (n * Scalar.byteWidth))
      else .error (.truncatedValues (n * Scalar.byteWidth) d.length) := by
  rw [← toScalars_eq_scalarsAt, ← toScalars_take]
  exact run_fixed ..

end Decoder

open Decoder

/-! ## Headers -/

namespace Header

/-- The point whose coordinates stand from a position on. -/
def pointAt (dim : Nat) (d : Bytes) (position : Nat) : Point dim :=
  ⟨scalarsAt d position dim, length_scalarsAt d position dim⟩

/-- The error for `available` bytes, too few for a header: the first field that is cut short, and
what is there of it. -/
def shortfall (dim spacedim available : Nat) : RecordError :=
  let coordinates := (spacedim + dim) * Scalar.byteWidth
  if available < coordinates then
    .truncatedField "scalar" Scalar.byteWidth (available % Scalar.byteWidth)
  else if available < coordinates + ParticleId.byteWidth then
    .truncatedField "u64" ParticleId.byteWidth (available - coordinates)
  else .truncatedField "u32" countWidth (available - (coordinates + ParticleId.byteWidth))

/-- The count in the last bytes of a header. -/
def declared (dim spacedim : Nat) (d : Bytes) : Nat :=
  (toWord32 ((d.drop (byteWidth dim spacedim - countWidth)).take countWidth)).toNat

/-- The header whose fields stand at the front of the bytes. -/
def front (dim spacedim : Nat) (d : Bytes) : Header dim spacedim where
  location := pointAt spacedim d 0
  reference := pointAt dim d (spacedim * Scalar.byteWidth)
  id := ⟨toWord64 ((d.drop ((spacedim + dim) * Scalar.byteWidth)).take ParticleId.byteWidth)⟩
  count := declared dim spacedim d

/-- Why no header stands at the front of the bytes, with the values that it declares behind it: the
bytes are too few for the header, or too few for the values. -/
def flaw? (dim spacedim : Nat) (d : Bytes) : Option RecordError :=
  let count := declared dim spacedim d
  if d.length < byteWidth dim spacedim then some (shortfall dim spacedim d.length)
  else if d.length < Record.byteWidth dim spacedim count then
    some (.truncatedRecord count (count * Scalar.byteWidth) (d.length - byteWidth dim spacedim))
  else none

theorem pointAt_drop (dim : Nat) (d : Bytes) (skipped : Nat) :
    pointAt dim (d.drop skipped) 0 = pointAt dim d skipped := by
  simp only [pointAt, scalarsAt_drop, Nat.add_zero]

theorem coords_pointAt_succ (dim : Nat) (d : Bytes) :
    (pointAt (dim + 1) d 0).coords =
      scalarAt d 0 :: (pointAt dim (d.drop Scalar.byteWidth) 0).coords := by
  rw [pointAt_drop]
  exact scalarsAt_succ d 0 dim

theorem run_point (dim : Nat) (d : Bytes) :
    (point dim).run d =
      if dim * Scalar.byteWidth ≤ d.length then
        .ok (pointAt dim d 0, d.drop (dim * Scalar.byteWidth))
      else .error (.truncatedField "scalar" Scalar.byteWidth (d.length % Scalar.byteWidth)) := by
  induction dim generalizing d with
  | zero =>
    rw [Nat.zero_mul, if_pos (Nat.zero_le _)]
    rfl
  | succ dim ih =>
    rw [point, run_bind, run_scalar, Nat.succ_mul]
    by_cases hfirst : Scalar.byteWidth ≤ d.length
    · simp only [if_pos hfirst]
      rw [run_bind, ih, List.length_drop]
      by_cases hothers : dim * Scalar.byteWidth ≤ d.length - Scalar.byteWidth
      · rw [if_pos hothers, if_pos (by omega), List.drop_drop, Nat.add_comm Scalar.byteWidth]
        simp only [← coords_pointAt_succ]
        rfl
      · rw [if_neg hothers, if_neg (by omega), ← Nat.mod_eq_sub_mod hfirst]
    · rw [if_neg hfirst, if_neg (by omega), Nat.mod_eq_of_lt (Nat.lt_of_not_le hfirst)]

/-- Both points are read, or one of their scalars is cut short. -/
theorem run_points (f : Point spacedim → Point dim → Decoder β) (d : Bytes) :
    (do f (← point spacedim) (← point dim)).run d =
      if (spacedim + dim) * Scalar.byteWidth ≤ d.length then
        (f (pointAt spacedim d 0) (pointAt dim d (spacedim * Scalar.byteWidth))).run
          (d.drop ((spacedim + dim) * Scalar.byteWidth))
      else .error (.truncatedField "scalar" Scalar.byteWidth (d.length % Scalar.byteWidth)) := by
  rw [run_bind, run_point, Nat.add_mul]
  by_cases hlocation : spacedim * Scalar.byteWidth ≤ d.length
  · simp only [if_pos hlocation]
    rw [run_bind, run_point, List.length_drop]
    by_cases hreference : dim * Scalar.byteWidth ≤ d.length - spacedim * Scalar.byteWidth
    · rw [if_pos hreference, if_pos (by omega), pointAt_drop, List.drop_drop]
    · have hpart : (d.length - spacedim * Scalar.byteWidth) % Scalar.byteWidth =
          d.length % Scalar.byteWidth := by
        rw [Nat.mul_comm] at hlocation ⊢
        exact Nat.sub_mul_mod hlocation
      rw [if_neg hreference, if_neg (by omega), hpart]
  · rw [if_neg hlocation, if_neg (by omega)]

theorem flaw?_of_short (h : d.length < byteWidth dim spacedim) :
    flaw? dim spacedim d = some (shortfall dim spacedim d.length) :=
  if_pos h

/-- Whether the declared values are there, behind all the fields of a header. -/
theorem run_checked (h : byteWidth dim spacedim ≤ d.length) :
    (do
      let needed := declared dim spacedim d * Scalar.byteWidth
      let available ← Decoder.available
      if available < needed then
        throw (.truncatedRecord (declared dim spacedim d) needed available)
      return front dim spacedim d : Decoder (Header dim spacedim)).run
        (d.drop (byteWidth dim spacedim)) =
      match flaw? dim spacedim d with
      | some cause => .error cause
      | none => .ok (front dim spacedim d, d.drop (byteWidth dim spacedim)) := by
  have hiff : d.length - byteWidth dim spacedim < declared dim spacedim d * Scalar.byteWidth ↔
      d.length < Record.byteWidth dim spacedim (declared dim spacedim d) :=
    Nat.sub_lt_iff_lt_add' h
  rw [flaw?, if_neg (Nat.not_lt.mpr h), run_bind, run_available, List.length_drop]
  by_cases hshort : d.length < Record.byteWidth dim spacedim (declared dim spacedim d)
  · simp only [if_pos hshort, if_pos (hiff.mpr hshort)]
    rfl
  · simp only [if_neg hshort, if_neg (mt hiff.mp hshort)]
    rfl

/-- A header is read by position if the bytes are enough for it and for the values that it declares,
and refused otherwise. -/
theorem run_decoder (dim spacedim : Nat) (d : Bytes) :
    (decoder dim spacedim).run d =
      match flaw? dim spacedim d with
      | some cause => .error cause
      | none => .ok (front dim spacedim d, d.drop (byteWidth dim spacedim)) := by
  have hwidth : byteWidth dim spacedim = (spacedim + dim) * Scalar.byteWidth + 8 + 4 := rfl
  have hidWidth : ParticleId.byteWidth = 8 := rfl
  unfold decoder
  rw [run_points]
  by_cases hpoints : (spacedim + dim) * Scalar.byteWidth ≤ d.length
  · rw [if_pos hpoints, run_bind, run_word64, List.length_drop]
    by_cases hid : 8 ≤ d.length - (spacedim + dim) * Scalar.byteWidth
    · simp only [if_pos hid]
      rw [run_bind, run_word32, List.drop_drop, List.length_drop]
      by_cases hcount : 4 ≤ d.length - ((spacedim + dim) * Scalar.byteWidth + 8)
      · simp only [if_pos hcount]
        rw [List.drop_drop]
        exact run_checked (by omega)
      · rw [if_neg hcount, flaw?_of_short (by omega), shortfall, if_neg (by omega),
          if_neg (by omega)]
        rfl
    · rw [if_neg hid, flaw?_of_short (by omega), shortfall, if_neg (by omega),
        if_pos (by omega)]
      rfl
  · rw [if_neg hpoints, flaw?_of_short (by omega), shortfall, if_pos (by omega)]

/-- Bytes without a flaw are enough for a record, and bytes that are enough are without a flaw. -/
theorem flaw?_eq_none_iff (dim spacedim : Nat) (d : Bytes) :
    flaw? dim spacedim d = none ↔
      Record.byteWidth dim spacedim (declared dim spacedim d) ≤ d.length := by
  have hle : byteWidth dim spacedim ≤ Record.byteWidth dim spacedim (declared dim spacedim d) :=
    Nat.le_add_right ..
  simp only [flaw?]
  split
  · exact ⟨nofun, by omega⟩
  · split
    · exact ⟨nofun, by omega⟩
    · exact ⟨fun _ => by omega, fun _ => rfl⟩

end Header

/-! ## Records -/

namespace Record

/-- The record whose fields stand at the front of the bytes. -/
def front (dim spacedim : Nat) (d : Bytes) : Record dim spacedim :=
  ofHeader (Header.front dim spacedim d)
    (scalarsAt d (Header.byteWidth dim spacedim) (Header.declared dim spacedim d))

@[simp] theorem length_values_front (dim spacedim : Nat) (d : Bytes) :
    (front dim spacedim d).values.length = Header.declared dim spacedim d :=
  length_scalarsAt ..

/-- A record is read by position if the bytes are enough for it, and its header's flaw is its only
one: the header's check is for the values too. -/
theorem run_decoder (dim spacedim : Nat) (d : Bytes) :
    (decoder dim spacedim).run d =
      match Header.flaw? dim spacedim d with
      | some cause => .error cause
      | none => .ok (front dim spacedim d,
          d.drop (byteWidth dim spacedim (Header.declared dim spacedim d))) := by
  rw [decoder, run_bind, Header.run_decoder]
  cases hflaw : Header.flaw? dim spacedim d with
  | some cause => rfl
  | none =>
    have henough := (Header.flaw?_eq_none_iff dim spacedim d).mp hflaw
    have hvalues : (Header.front dim spacedim d).count * Scalar.byteWidth ≤
        (d.drop (Header.byteWidth dim spacedim)).length := by
      rw [List.length_drop]
      exact Nat.le_sub_of_add_le' henough
    simp only []
    rw [run_bind, run_scalars, if_pos hvalues, List.drop_drop, scalarsAt_drop]
    rfl

/-- The record at the front is written as the bytes that it stands in. -/
theorem encode_front (h : Header.flaw? dim spacedim d = none) :
    (front dim spacedim d).encode =
      .ok (d.take (byteWidth dim spacedim (Header.declared dim spacedim d))) := by
  have hdecode := run_decoder dim spacedim d
  rw [h] at hdecode
  obtain ⟨bytes, henc, heq⟩ := run_decoder_eq_ok_iff.mp hdecode
  rw [henc]
  exact congrArg _ (List.append_cancel_right (heq.symm.trans (List.take_append_drop _ d).symm))

end Record

end ParticleStore
