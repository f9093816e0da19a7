/-
ParticleStore.Proofs.Pool.Blocks — the scalars of a pool, slot by slot.

A pool keeps the scalars of all its slots in one list. `block p i` is the part
that belongs to slot `i`, and `withBlock p i values` puts other values in its
place. The two lemmas that everything above rests on are `block_withBlock_self`
and `block_withBlock_of_ne`: a write is read back at its own slot and seen at no
other. Both need only that the list is as long as the table says, which the
checked accesses `slotValues` and `setSlotValues` test before they touch it.
-/
import ParticleStore.Pool.Slots
import ParticleStore.Pool.View
import Mathlib.Data.List.Basic

namespace ParticleStore.Pool

variable {p : Pool} {i j : Nat} {values : List Scalar}

/-- The scalars of slot `i`. -/
def block (p : Pool) (i : Nat) : List Scalar := (p.scalars.drop (i * p.stride)).take p.stride

/-- The pool with other scalars in the place of slot `i`. -/
def withBlock (p : Pool) (i : Nat) (values : List Scalar) : Pool :=
  { p with
    scalars := p.scalars.take (i * p.stride) ++
      (values ++ p.scalars.drop (i * p.stride + p.stride)) }

/-- Slot `i` lies within the scalars there are. -/
def Spans (p : Pool) (i : Nat) : Prop := i * p.stride + p.stride ≤ p.scalars.length

/-- In a list of exactly `n` slots, each slot below `n` lies within it. -/
theorem spans_of_lt {n : Nat} (h : p.scalars.length = n * p.stride) (hi : i < n) : p.Spans i := by
  have hmul : (i + 1) * p.stride ≤ n * p.stride := Nat.mul_le_mul_right _ hi
  rw [Nat.succ_mul] at hmul
  unfold Spans
  omega

/-! ## What a write changes -/

@[simp] theorem withBlock_id : (p.withBlock i values).id = p.id := rfl
@[simp] theorem withBlock_config : (p.withBlock i values).config = p.config := rfl
@[simp] theorem withBlock_stride : (p.withBlock i values).stride = p.stride := rfl
@[simp] theorem withBlock_slots : (p.withBlock i values).slots = p.slots := rfl
@[simp] theorem withBlock_totalSlots : (p.withBlock i values).totalSlots = p.totalSlots := rfl
@[simp] theorem withBlock_free : (p.withBlock i values).free = p.free := rfl
@[simp] theorem withBlock_live : (p.withBlock i values).live = p.live := rfl
@[simp] theorem withBlock_reserved : (p.withBlock i values).reserved = p.reserved := rfl
@[simp] theorem withBlock_readers : (p.withBlock i values).readers = p.readers := rfl
@[simp] theorem withBlock_writers : (p.withBlock i values).writers = p.writers := rfl
@[simp] theorem withBlock_isViewed : (p.withBlock i values).isViewed = p.isViewed := rfl

@[simp] theorem withBlock_locate (h : Handle) : (p.withBlock i values).locate h = p.locate h := rfl

theorem length_scalars_withBlock (hi : p.Spans i) (hv : values.length = p.stride) :
    (p.withBlock i values).scalars.length = p.scalars.length := by
  unfold Spans at hi
  simp only [withBlock, List.length_append, List.length_take, List.length_drop]
  omega

theorem length_block (hi : p.Spans i) : (p.block i).length = p.stride := by
  unfold Spans at hi
  simp only [block, List.length_take, List.length_drop]
  omega

/-- The scalars before slot `i`. -/
theorem length_front (hi : p.Spans i) : (p.scalars.take (i * p.stride)).length = i * p.stride := by
  unfold Spans at hi
  rw [List.length_take]
  omega

/-! ## Reading a write back -/

/-- A slot holds what was written to it. -/
theorem block_withBlock_self (hi : p.Spans i) (hv : values.length = p.stride) :
    (p.withBlock i values).block i = values := by
  have hfront := length_front hi
  simp only [block, withBlock_stride]
  show ((p.scalars.take (i * p.stride) ++ _).drop (i * p.stride)).take p.stride = values
  rw [List.drop_left' hfront, List.take_left' hv]

/-- A write to one slot leaves the others as they are. -/
theorem block_withBlock_of_ne (hi : p.Spans i) (hv : values.length = p.stride) (hij : j ≠ i) :
    (p.withBlock i values).block j = p.block j := by
  have hfront := length_front hi
  unfold Spans at hi
  simp only [block, withBlock_stride]
  show ((p.scalars.take (i * p.stride) ++ _).drop (j * p.stride)).take p.stride = _
  rcases Nat.lt_or_gt_of_ne hij with hlt | hgt
  · -- the block read lies in the front part, which is kept
    have hend : j * p.stride + p.stride ≤ i * p.stride := by
      rw [← Nat.succ_mul]
      exact Nat.mul_le_mul_right _ hlt
    rw [List.drop_append_of_le_length (by omega),
      List.take_append_of_le_length (by rw [List.length_drop]; omega),
      List.drop_take, List.take_take, Nat.min_eq_left (by omega)]
  · -- the block read lies in the back part, which keeps its place
    have hstart : i * p.stride + p.stride ≤ j * p.stride := by
      rw [← Nat.succ_mul]
      exact Nat.mul_le_mul_right _ hgt
    rw [← List.append_assoc, List.drop_append,
      List.drop_eq_nil_of_le (by rw [List.length_append]; omega), List.nil_append,
      List.length_append, hfront, hv, List.drop_drop]
    congr 2
    omega

/-- Writing what is there changes nothing. -/
theorem withBlock_block (p : Pool) (i : Nat) : p.withBlock i (p.block i) = p := by
  have hscalars : (p.withBlock i (p.block i)).scalars = p.scalars := by
    show p.scalars.take _ ++ ((p.scalars.drop _).take p.stride ++ p.scalars.drop _) = p.scalars
    rw [← List.drop_drop, List.take_append_drop, List.take_append_drop]
  show { p with scalars := (p.withBlock i (p.block i)).scalars } = p
  rw [hscalars]

/-- The later of two writes to a slot counts. -/
theorem withBlock_withBlock {old : List Scalar} (hi : p.Spans i) (hold : old.length = p.stride) :
    (p.withBlock i old).withBlock i values = p.withBlock i values := by
  have hfront := length_front hi
  have hstart : (p.withBlock i old).scalars.take (i * p.stride) = p.scalars.take (i * p.stride) :=
    List.take_left' hfront
  have hrest : (p.withBlock i old).scalars.drop (i * p.stride + p.stride) =
      p.scalars.drop (i * p.stride + p.stride) := by
    show (p.scalars.take _ ++ (old ++ _)).drop _ = _
    rw [← List.append_assoc, List.drop_left' (by rw [List.length_append, hfront, hold])]
  show { p with scalars := (p.withBlock i old).scalars.take _ ++ (values ++ _) } = _
  rw [withBlock_stride, hstart, hrest]
  rfl

/-! ## The checked accesses -/

theorem slotValues_eq (hi : p.Spans i) : p.slotValues i = .ok (p.block i) := by
  unfold Spans at hi
  simp [slotValues, Attempt.require, hi, block, bind, Except.bind, pure, Except.pure]

theorem setSlotValues_eq (hi : p.Spans i) (hv : values.length = p.stride) :
    p.setSlotValues i values = .ok (p.withBlock i values) := by
  unfold Spans at hi
  simp [setSlotValues, Attempt.require, hi, hv, withBlock, bind, Except.bind, pure, Except.pure]

theorem overwriteAt_eq (hi : p.Spans i) :
    p.overwriteAt i values =
      .ok (overlay values (p.block i), p.withBlock i (overlay values (p.block i))) := by
  have hlen : (overlay values (p.block i)).length = p.stride := by
    rw [length_overlay, length_block hi]
  simp only [overwriteAt, slotValues_eq hi, setSlotValues_eq hi hlen, bind, Except.bind, pure,
    Except.pure]

/-- A write beyond the scalars there are fails. -/
theorem overwriteAt_of_not_spans (values : List Scalar) (hi : ¬ p.Spans i) :
    ∃ fault, p.overwriteAt i values = Attempt.halt fault := by
  unfold Spans at hi
  refine ⟨.range (i * p.stride + p.stride) p.scalars.length, ?_⟩
  have hrequire : (Attempt.require (i * p.stride + p.stride ≤ p.scalars.length)
      (.range (i * p.stride + p.stride) p.scalars.length) : Attempt PoolError Unit) =
        Attempt.halt (.range (i * p.stride + p.stride) p.scalars.length) := if_neg hi
  simp only [overwriteAt, slotValues, hrequire]
  rfl

end ParticleStore.Pool
