/-
ParticleStore.Proofs.Pool.WellFormed — how the parts of a pool belong together.

A pool's table, its stack of released slots, its count of live slots and its
scalars are four separate things that every operation has to keep in step.
`WellFormed` says how they belong together, and `locate_eq_ok_iff` what the test
of handles then amounts to.

The bound on the table's length is tested nowhere in an operation. It follows from
the partition of the table into live and released slots: the table grows only
when no released slot is left, and then every slot is live
(`totalSlots_lt_of_free_nil`).
-/
import ParticleStore.Proofs.Pool.Blocks
import Mathlib.Data.List.Count

namespace ParticleStore.Pool

variable {p : Pool} {h : Handle}

/-- The table, the stack, the count and the scalars of a pool belong together. -/
structure WellFormed (p : Pool) : Prop where
  /-- The pool has an id of its own, so none of its handles is the invalid one. -/
  id_ne_none : p.id ≠ .none
  length_scalars : p.scalars.length = p.totalSlots * p.stride
  totalSlots_le : p.totalSlots ≤ p.config.slotLimit
  live_eq : p.live = p.slots.countP (·.live)
  nodup_free : p.free.Nodup
  /-- Exactly the slots that are not live wait to be used again. -/
  mem_free : ∀ i : UInt32, i ∈ p.free ↔ ∃ slot, p.slots[i.toNat]? = some slot ∧ slot.live = false

/-- A new pool is well-formed. -/
theorem wellFormed_empty {id : PoolId} (config : PoolConfig) (hid : id ≠ .none) :
    (empty id config).WellFormed where
  id_ne_none := hid
  length_scalars := by simp [empty, totalSlots]
  totalSlots_le := by simp [empty, totalSlots]
  live_eq := by simp [empty]
  nodup_free := by simp [empty]
  mem_free := by simp [empty]

namespace WellFormed

theorem spans (wf : p.WellFormed) {i : Nat} (hi : i < p.totalSlots) : p.Spans i :=
  spans_of_lt wf.length_scalars hi

/-- Every position of the table is an index of 32 bits, and not the invalid handle's. -/
theorem totalSlots_lt (wf : p.WellFormed) : p.totalSlots < UInt32.size := by
  have hle := Nat.le_trans wf.totalSlots_le p.config.slotLimit_le
  have hmax : PoolConfig.maxIndex + 1 < UInt32.size := by decide
  exact Nat.lt_of_le_of_lt hle hmax

/-- No handle of the pool is the invalid one. -/
theorem isValid_of_pool (wf : p.WellFormed) (hpool : h.pool = p.id) : h.isValid = true := by
  have hne : h ≠ Handle.invalid := fun he => wf.id_ne_none (by rw [← hpool, he]; rfl)
  simpa [Handle.isValid] using hne

theorem live_le (wf : p.WellFormed) : p.live ≤ p.totalSlots := by
  rw [wf.live_eq]
  exact List.countP_le_length

theorem live_le_slotLimit (wf : p.WellFormed) : p.live ≤ p.config.slotLimit :=
  Nat.le_trans wf.live_le wf.totalSlots_le

/-- While no slot waits to be used again, every slot is live. -/
theorem live_eq_totalSlots (wf : p.WellFormed) (hfree : p.free = []) : p.live = p.totalSlots := by
  rw [wf.live_eq, totalSlots, List.countP_eq_length]
  intro slot hmem
  obtain ⟨i, hi, hget⟩ := List.mem_iff_getElem.mp hmem
  by_contra hdead
  have hlt : i < UInt32.size := Nat.lt_trans hi wf.totalSlots_lt
  have hin : UInt32.ofNat i ∈ p.free := by
    rw [wf.mem_free]
    refine ⟨slot, ?_, by simpa using hdead⟩
    rw [UInt32.toNat_ofNat_of_lt' hlt, List.getElem?_eq_getElem hi, hget]
  rw [hfree] at hin
  cases hin

/-- The table grows only within the limit. -/
theorem totalSlots_lt_of_free_nil (wf : p.WellFormed) (hfree : p.free = [])
    (hlimit : p.live < p.config.slotLimit) : p.totalSlots < p.config.slotLimit := by
  rw [← wf.live_eq_totalSlots hfree]
  exact hlimit

end WellFormed

/-! ## Handles -/

/-- Slot `i` is live in the given generation. -/
def LiveAt (p : Pool) (i : Nat) (generation : UInt32) : Prop :=
  p.slots[i]? = some ⟨generation, true⟩

theorem LiveAt.lt {i : Nat} {generation : UInt32} (hl : p.LiveAt i generation) :
    i < p.totalSlots :=
  (List.getElem?_eq_some_iff.mp hl).1

/-- A handle of the pool is located exactly when its slot is live in its generation. -/
theorem locate_eq_ok_iff (wf : p.WellFormed) {i : Nat} :
    p.locate h = .ok i ↔ h.pool = p.id ∧ i = h.index.toNat ∧ p.LiveAt i h.generation := by
  unfold locate LiveAt
  by_cases hpool : h.pool = p.id
  · have hvalid := wf.isValid_of_pool hpool
    cases hslot : p.slots[h.index.toNat]? with
    | none =>
      simp only [hvalid, hpool]
      constructor
      · intro he; simp at he
      · rintro ⟨-, rfl, he⟩; rw [hslot] at he; cases he
    | some slot =>
      obtain ⟨generation, live⟩ := slot
      by_cases hlive : live && generation == h.generation
      · obtain ⟨rfl, rfl⟩ : live = true ∧ generation = h.generation := by simpa using hlive
        simp only [hvalid, hpool]
        constructor
        · intro he
          have hi : i = h.index.toNat := by simpa using he.symm
          exact ⟨trivial, hi, by rw [hi, hslot]⟩
        · rintro ⟨-, rfl, -⟩; simp
      · simp only [hvalid, hpool, hlive]
        constructor
        · intro he; simp at he
        · rintro ⟨-, rfl, he⟩
          rw [hslot] at he
          cases he
          simp at hlive
  · constructor
    · intro he
      by_cases hvalid : h.isValid <;> simp [hvalid, hpool] at he
    · rintro ⟨he, -⟩
      exact absurd he hpool

end ParticleStore.Pool
