/-
ParticleStore.Proofs.Session.Partition — the table of a pool, in every session.

A pool keeps its table, the stack of released slots, the count of live slots and the
scalars apart, and no operation compares them. `Partitioned` says what they have in
common all the same: the table is made of the live slots, which the count counts, and
of the slots on the stack, each of them once. Everything else follows from this. The
table is never longer than the limit, which is tested against the count of live slots
only, so the position of a new slot fits an index, and it is not the index that the
invalid handle has.

`partitioned_run` says so of every pool after any run of steps, with handles of any
origin.
-/
import ParticleStore.Proofs.Session.Sound
import Mathlib.Data.List.Nodup

namespace ParticleStore

namespace Pool

variable {p p' : Pool} {h : Handle}

/-- The table of a pool is made of live slots and of slots on the stack. -/
structure Partitioned (p : Pool) : Prop where
  nodup_free : p.free.Nodup
  /-- Exactly the positions of the slots that are not live are on the stack. -/
  mem_free : ∀ n, n ∈ p.free.map UInt32.toNat ↔ ∃ slot, p.slots[n]? = some slot ∧ slot.live = false
  live_eq : p.live = p.slots.countP (·.live)
  live_add_freeSlots : p.live + p.freeSlots = p.totalSlots
  length_scalars : p.scalars.length = p.totalSlots * p.stride
  totalSlots_le : p.totalSlots ≤ p.config.slotLimit
  slotLimit_le : p.config.slotLimit ≤ UInt32.size - 1
  /-- The index of a new slot is its position in the table. -/
  toNat_extend : p.extend.1.toNat = p.totalSlots
  /-- An index that is issued is a position in the table, and not the invalid handle's. -/
  issued : ∀ h p', (p.allocate = .ok (h, p') ∨ ∃ k, p.duplicate k = .ok (h, p')) →
    h.index.toNat < p'.totalSlots ∧ p'.totalSlots ≤ p'.config.slotLimit ∧
      h.index ≠ Handle.invalid.index

/-- Every slot limit leaves out the last index of 32 bits. -/
theorem slotLimit_le_size : p.config.slotLimit ≤ UInt32.size - 1 := p.config.slotLimit_le

namespace WellFormed

variable (wf : p.WellFormed)

include wf

theorem mem_map_free (n : Nat) :
    n ∈ p.free.map UInt32.toNat ↔ ∃ slot, p.slots[n]? = some slot ∧ slot.live = false := by
  rw [List.mem_map]
  constructor
  · rintro ⟨i, hi, rfl⟩
    exact (wf.mem_free i).mp hi
  · rintro ⟨slot, hslot, hdead⟩
    have hlt : n < UInt32.size :=
      Nat.lt_trans (List.getElem?_eq_some_iff.mp hslot).1 wf.totalSlots_lt
    have hn : (UInt32.ofNat n).toNat = n := UInt32.toNat_ofNat_of_lt' hlt
    exact ⟨UInt32.ofNat n, (wf.mem_free _).mpr ⟨slot, by rwa [hn], hdead⟩, hn⟩

/-- The stack is as long as there are slots that are not live. -/
theorem freeSlots_eq : p.freeSlots = p.slots.countP fun slot => !slot.live := by
  have hnodup : (p.free.map UInt32.toNat).Nodup :=
    List.Nodup.map (fun i j hij => UInt32.toNat_inj.mp hij) wf.nodup_free
  have hperm : (p.free.map UInt32.toNat).Perm (p.slots.findIdxs fun slot => !slot.live) := by
    refine (List.perm_ext_iff_of_nodup hnodup List.nodup_findIdxs).mpr fun n => ?_
    rw [wf.mem_map_free, List.mem_findIdxs_iff_exists_getElem_pos]
    simp [List.getElem?_eq_some_iff]
  rw [freeSlots, ← List.length_map UInt32.toNat, hperm.length_eq, List.length_findIdxs]

/-- A slot is either live or waits to be used again. -/
theorem live_add_freeSlots : p.live + p.freeSlots = p.totalSlots := by
  rw [wf.live_eq, wf.freeSlots_eq, totalSlots, List.length_eq_countP_add_countP (·.live)]
  simp

/-- A slot that is issued stands in the table after it. -/
theorem index_lt_of_issued
    (hissued : p.allocate = .ok (h, p') ∨ ∃ k, p.duplicate k = .ok (h, p')) :
    h.index.toNat < p'.totalSlots ∧ p'.totalSlots ≤ p'.config.slotLimit := by
  have htaken := nextIndex_lt_totalSlots_taken wf
  rcases hissued with halloc | ⟨k, hdup⟩
  · rw [allocate_eq wf, Attempt.decided_eq_ok_iff, Prod.mk.injEq] at halloc
    obtain ⟨hnone, rfl, rfl⟩ := halloc
    rw [Option.or_eq_none_iff, full?_eq_none_iff] at hnone
    exact ⟨htaken, (wellFormed_taken wf hnone.2).totalSlots_le⟩
  · rw [duplicate_eq wf, Attempt.decided_eq_ok_iff, Prod.mk.injEq] at hdup
    obtain ⟨hnone, rfl, rfl⟩ := hdup
    rw [Option.or_eq_none_iff, Option.or_eq_none_iff, full?_eq_none_iff] at hnone
    exact ⟨htaken, (wellFormed_taken wf hnone.2.2).totalSlots_le⟩

theorem partitioned : p.Partitioned where
  nodup_free := wf.nodup_free
  mem_free := wf.mem_map_free
  live_eq := wf.live_eq
  live_add_freeSlots := wf.live_add_freeSlots
  length_scalars := wf.length_scalars
  totalSlots_le := wf.totalSlots_le
  slotLimit_le := slotLimit_le_size
  toNat_extend := UInt32.toNat_ofNat_of_lt' wf.totalSlots_lt
  issued h p' hissued := by
    obtain ⟨hlt, hle⟩ := wf.index_lt_of_issued hissued
    refine ⟨hlt, hle, fun he => ?_⟩
    have hmax : p'.config.slotLimit ≤ UInt32.size - 1 := slotLimit_le_size
    have hindex : h.index.toNat = UInt32.size - 1 := by rw [he]; rfl
    omega

end WellFormed

end Pool

namespace Session

variable {dim spacedim : Nat}

/-- **Every table is partitioned.** After any run of steps every pool is made of live slots and
of slots that wait on its stack, within its limit. -/
theorem partitioned_run (steps : List (Step dim spacedim)) (i : Nat) (p : Pool)
    (hp : (run ({} : Session dim spacedim) steps).2.world.pool? i = some p) : p.Partitioned :=
  ((sound_reached steps).wellFormed.pool i p hp).partitioned

/-- A slot is released through its handle, which another copy of the handle and a made-up one
cannot do again, and it is used again before the table grows. -/
theorem partitioned_run_of_reuse :
    let steps : List (Step 0 0) :=
      [.makePool { stride := 1 }, .allocate 0 0, .allocate 0 1, .shareHandle (.kept 0) 2,
        .release 0 0, .release 0 2, .forge 3 ⟨⟨1⟩, 7, 0⟩, .release 0 3, .duplicate 0 (.kept 1) 0,
        .release 0 1]
    let p : Pool :=
      { id := ⟨1⟩, config := { stride := 1 }, slots := [⟨1, true⟩, ⟨1, false⟩], free := [1],
        live := 1, scalars := [.zero, .zero] }
    (run {} steps).2.world.pool? 0 = some p ∧ p.Partitioned := by
  intro steps p
  have hp : (run {} steps).2.world.pool? 0 = some p := rfl
  exact ⟨hp, partitioned_run steps 0 p hp⟩

end Session

end ParticleStore
