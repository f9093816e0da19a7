/-
ParticleStore.Proofs.Pool.Operations — what each operation on a pool does.

There are four causes to refuse an operation: a view is open (`viewed?`), a write
view is open (`written?`), the handle names no live slot (`flawed?`), the limit is
reached (`full?`). On a well-formed pool no other check inside an operation fails,
so one equation describes each operation in full, with the causes in the order in
which they are looked for:

* `take_eq`, `allocate_eq`, `duplicate_eq` — the next handle, and the pool `taken` or `filled`;
* `release_eq` — the invalid handle, and the pool `released`;
* `values_eq`, `setValues_eq`, `overwrite_eq`, `openView_eq` — the accesses.

Callers use these equations and never look inside an operation.
-/
import ParticleStore.Proofs.Attempt
import ParticleStore.Proofs.Pool.WellFormed
import ParticleStore.Pool.Reservation

namespace ParticleStore.Pool

variable {p : Pool} {h : Handle} {i j : Nat} {values : List Scalar}

/-! ## Causes to refuse -/

/-- Some view is open. -/
def viewed? (p : Pool) : Option PoolError := if p.isViewed then some .storageBorrowed else none

/-- A write view is open. -/
def written? (p : Pool) : Option PoolError := if 0 < p.writers then some .storageBorrowed else none

/-- The limit is reached. -/
def full? (p : Pool) : Option PoolError :=
  if p.config.slotLimit ≤ p.live then some (.outOfResources (p.live + 1) p.config.slotLimit)
  else none

/-- The handle names no live slot. -/
def flawed? (p : Pool) (h : Handle) : Option PoolError :=
  match p.locate h with
  | .ok _ => none
  | .error flaw => some (.invalidHandle flaw)

theorem viewed?_eq_none_iff : p.viewed? = none ↔ p.isViewed = false := by
  unfold viewed?
  cases p.isViewed <;> simp

theorem written?_eq_none_iff : p.written? = none ↔ p.writers = 0 := by
  unfold written?
  split
  · simp; omega
  · simp; omega

theorem full?_eq_none_iff : p.full? = none ↔ p.live < p.config.slotLimit := by
  unfold full?
  split
  · simp; omega
  · simp; omega

theorem flawed?_eq_none_iff : p.flawed? h = none ↔ ∃ i, p.locate h = .ok i := by
  unfold flawed?
  cases p.locate h <;> simp

/-- A handle is live in a pool in which it has no flaw. -/
theorem isLive_eq (p : Pool) (h : Handle) : p.isLive h = (p.flawed? h).isNone := by
  unfold isLive flawed?
  cases p.locate h <;> rfl

theorem flawed?_of_isLive (hlive : p.isLive h = true) : p.flawed? h = none := by
  rw [isLive_eq] at hlive
  exact Option.isNone_iff_eq_none.mp hlive

theorem demandUnviewed_eq : p.demandUnviewed = .decided p.viewed? () := by
  unfold demandUnviewed viewed?
  split <;> rfl

theorem demandUnwritten_eq : p.demandUnwritten = .decided p.written? () := by
  unfold demandUnwritten written?
  split <;> rfl

/-- A handle that names a live slot of a well-formed pool names the one at its index. -/
theorem demand_eq (wf : p.WellFormed) : p.demand h = .decided (p.flawed? h) h.index.toNat := by
  unfold demand flawed?
  cases hloc : p.locate h with
  | error flaw => rfl
  | ok i =>
    obtain ⟨-, rfl, -⟩ := (locate_eq_ok_iff wf).mp hloc
    rfl

theorem liveAt_of_flawed? (wf : p.WellFormed) (hf : p.flawed? h = none) :
    p.LiveAt h.index.toNat h.generation := by
  obtain ⟨i, hloc⟩ := flawed?_eq_none_iff.mp hf
  obtain ⟨-, rfl, hlive⟩ := (locate_eq_ok_iff wf).mp hloc
  exact hlive

theorem length_block_of_flawed? (wf : p.WellFormed) (hf : p.flawed? h = none) :
    (p.block h.index.toNat).length = p.stride :=
  length_block (wf.spans (liveAt_of_flawed? wf hf).lt)

/-! ## The next slot -/

/-- The index of the slot to be used next: the one released last, or else a new one. -/
def nextIndex (p : Pool) : UInt32 :=
  match p.free with
  | [] => UInt32.ofNat p.totalSlots
  | index :: _ => index

/-- The generation of the slot to be used next; a new slot starts at zero. -/
def nextGeneration (p : Pool) : UInt32 :=
  ((p.slots[p.nextIndex.toNat]?).map Slot.generation).getD 0

/-- The handle that is issued next. -/
def nextHandle (p : Pool) : Handle := ⟨p.id, p.nextIndex, p.nextGeneration⟩

/-- A slot of zeros. -/
def zeros (p : Pool) : List Scalar := List.replicate p.stride .zero

@[simp] theorem length_zeros : p.zeros.length = p.stride := List.length_replicate

/-- The pool once the next slot is taken: it is live and holds zeros. -/
def taken (p : Pool) : Pool :=
  match p.free with
  | [] => { p with
      slots := p.slots ++ [⟨p.nextGeneration, true⟩]
      scalars := p.scalars ++ p.zeros
      live := p.live + 1 }
  | index :: rest => { p.withBlock index.toNat p.zeros with
      slots := p.slots.set index.toNat ⟨p.nextGeneration, true⟩
      free := rest
      live := p.live + 1 }

@[simp] theorem taken_id : p.taken.id = p.id := by unfold taken; split <;> rfl
@[simp] theorem taken_config : p.taken.config = p.config := by unfold taken; split <;> rfl
@[simp] theorem taken_stride : p.taken.stride = p.stride := by simp [stride]
@[simp] theorem taken_readers : p.taken.readers = p.readers := by unfold taken; split <;> rfl
@[simp] theorem taken_writers : p.taken.writers = p.writers := by unfold taken; split <;> rfl
@[simp] theorem taken_live : p.taken.live = p.live + 1 := by unfold taken; split <;> rfl
@[simp] theorem taken_isViewed : p.taken.isViewed = p.isViewed := by simp [isViewed]

@[simp] theorem nextHandle_pool : p.nextHandle.pool = p.id := rfl
@[simp] theorem nextHandle_index : p.nextHandle.index = p.nextIndex := rfl

theorem totalSlots_taken :
    p.taken.totalSlots = if p.free = [] then p.totalSlots + 1 else p.totalSlots := by
  cases hfree : p.free with
  | nil => simp [taken, hfree, totalSlots]
  | cons index rest => simp [taken, hfree, totalSlots]

theorem totalSlots_le_taken : p.totalSlots ≤ p.taken.totalSlots := by
  rw [totalSlots_taken]
  split <;> omega

section Taking

variable (wf : p.WellFormed)

include wf

/-- A slot that waits to be used again is in the table and not live. -/
theorem getElem?_of_mem_free (index : UInt32) (hmem : index ∈ p.free) :
    ∃ generation, p.slots[index.toNat]? = some ⟨generation, false⟩ := by
  obtain ⟨⟨generation, live⟩, hslot, hdead⟩ := (wf.mem_free index).mp hmem
  exact ⟨generation, by rw [hslot]; simp_all⟩

theorem toNat_nextIndex_of_free_nil (hfree : p.free = []) : p.nextIndex.toNat = p.totalSlots := by
  simp only [nextIndex, hfree]
  exact UInt32.toNat_ofNat_of_lt' wf.totalSlots_lt

/-- The slot to be used next is not live. -/
theorem not_liveAt_nextIndex (generation : UInt32) : ¬ p.LiveAt p.nextIndex.toNat generation := by
  intro hlive
  cases hfree : p.free with
  | nil =>
    have hlt := hlive.lt
    rw [toNat_nextIndex_of_free_nil wf hfree] at hlt
    exact Nat.lt_irrefl _ hlt
  | cons index rest =>
    obtain ⟨g, hslot⟩ := getElem?_of_mem_free wf index (by simp [hfree])
    simp only [LiveAt, nextIndex, hfree, hslot] at hlive
    cases hlive

/-- Taking a slot changes the table at its index only. -/
theorem getElem?_slots_taken :
    p.taken.slots[j]? =
      if j = p.nextIndex.toNat then some ⟨p.nextGeneration, true⟩ else p.slots[j]? := by
  cases hfree : p.free with
  | nil =>
    have hnext : p.nextIndex.toNat = p.slots.length := toNat_nextIndex_of_free_nil wf hfree
    rw [hnext]
    simp only [taken, hfree, List.getElem?_append]
    rcases Nat.lt_trichotomy j p.slots.length with hlt | heq | hgt
    · rw [if_pos hlt, if_neg (by omega)]
    · subst heq; simp
    · rw [if_neg (by omega), if_neg (by omega), List.getElem?_eq_none (by simp; omega),
        List.getElem?_eq_none (by omega)]
  | cons index rest =>
    obtain ⟨g, hslot⟩ := getElem?_of_mem_free wf index (by simp [hfree])
    have hlt : index.toNat < p.slots.length := (List.getElem?_eq_some_iff.mp hslot).1
    have hnext : p.nextIndex = index := by simp [nextIndex, hfree]
    rw [hnext]
    simp only [taken, hfree, List.getElem?_set, hlt, if_true, eq_comm]

theorem nextIndex_lt_totalSlots_taken : p.nextIndex.toNat < p.taken.totalSlots := by
  have hslot := getElem?_slots_taken wf (j := p.nextIndex.toNat)
  rw [if_pos rfl] at hslot
  exact (List.getElem?_eq_some_iff.mp hslot).1

/-- Taking a slot keeps a pool well-formed if one more slot may be live. -/
theorem wellFormed_taken (hlimit : p.live < p.config.slotLimit) : p.taken.WellFormed := by
  cases hfree : p.free with
  | nil =>
    have hgrow := wf.totalSlots_lt_of_free_nil hfree hlimit
    refine ⟨by simpa using wf.id_ne_none, ?_, ?_, ?_, ?_, ?_⟩
    · have hscalars : p.taken.scalars = p.scalars ++ p.zeros := by simp [taken, hfree]
      rw [hscalars, totalSlots_taken, if_pos hfree, taken_stride, List.length_append,
        wf.length_scalars, length_zeros, Nat.succ_mul]
    · rw [totalSlots_taken, if_pos hfree, taken_config]
      exact hgrow
    · simp [taken, hfree, wf.live_eq]
    · simp [taken, hfree]
    · intro i
      rw [getElem?_slots_taken wf]
      have hsame := wf.mem_free i
      simp only [hfree, List.not_mem_nil, false_iff] at hsame
      simp only [taken, hfree, List.not_mem_nil, false_iff]
      split
      · simp
      · exact hsame
  | cons index rest =>
    obtain ⟨g, hslot⟩ := getElem?_of_mem_free wf index (by simp [hfree])
    obtain ⟨hlt, hget⟩ := List.getElem?_eq_some_iff.mp hslot
    have hnext : p.nextIndex = index := by simp [nextIndex, hfree]
    have hnodup := wf.nodup_free
    rw [hfree, List.nodup_cons] at hnodup
    have hspan : p.Spans index.toNat := wf.spans hlt
    refine ⟨by simpa using wf.id_ne_none, ?_, ?_, ?_, ?_, ?_⟩
    · rw [totalSlots_taken, hfree, if_neg (by simp), taken_stride, ← wf.length_scalars]
      simp only [taken, hfree]
      exact length_scalars_withBlock hspan length_zeros
    · rw [totalSlots_taken, hfree, if_neg (by simp), taken_config]
      exact wf.totalSlots_le
    · simp only [taken, hfree, wf.live_eq, List.countP_set hlt, hget]
      simp
    · simpa [taken, hfree] using hnodup.2
    · intro i
      rw [getElem?_slots_taken wf, hnext]
      simp only [taken, hfree]
      have hsame := wf.mem_free i
      rw [hfree, List.mem_cons] at hsame
      split
      · rename_i hi
        obtain rfl : i = index := UInt32.toNat_inj.mp hi
        simp [hnodup.1]
      · rename_i hi
        have hne : i ≠ index := fun he => hi (by rw [he])
        rw [← hsame]
        simp [hne]

/-- The slot taken holds zeros, and the others hold what they held. -/
theorem block_taken (hj : j < p.taken.totalSlots) :
    p.taken.block j = if j = p.nextIndex.toNat then p.zeros else p.block j := by
  cases hfree : p.free with
  | nil =>
    have hnext : p.nextIndex.toNat = p.totalSlots := toNat_nextIndex_of_free_nil wf hfree
    have hscalars : p.taken.scalars = p.scalars ++ p.zeros := by simp [taken, hfree]
    rw [totalSlots_taken, if_pos hfree] at hj
    simp only [block, taken_stride, hscalars, hnext]
    split
    · rename_i hlast
      rw [hlast, ← wf.length_scalars, List.drop_left, List.take_of_length_le (by simp)]
    · have hspan : p.Spans j := wf.spans (by omega)
      unfold Spans at hspan
      rw [List.drop_append_of_le_length (by omega), List.take_append_of_le_length]
      rw [List.length_drop]
      omega
  | cons index rest =>
    obtain ⟨g, hslot⟩ := getElem?_of_mem_free wf index (by simp [hfree])
    have hspan : p.Spans index.toNat := wf.spans (List.getElem?_eq_some_iff.mp hslot).1
    have hnext : p.nextIndex = index := by simp [nextIndex, hfree]
    have hscalars : p.taken.scalars = (p.withBlock index.toNat p.zeros).scalars := by
      simp [taken, hfree]
    have hblock : p.taken.block j = (p.withBlock index.toNat p.zeros).block j := by
      simp only [block, hscalars, taken_stride, withBlock_stride]
    rw [hblock, hnext]
    split
    · rename_i hi
      rw [hi, block_withBlock_self hspan length_zeros]
    · rename_i hi
      exact block_withBlock_of_ne hspan length_zeros hi

theorem take_eq : p.take = .decided p.full? (p.nextHandle, p.taken) := by
  unfold take full?
  split
  · rfl
  simp only [Attempt.decided_none]
  cases hfree : p.free with
  | nil =>
    have hnext : p.nextIndex.toNat = p.slots.length := toNat_nextIndex_of_free_nil wf hfree
    have hindex : p.nextIndex = UInt32.ofNat p.slots.length := by
      simp [nextIndex, hfree, totalSlots]
    have hgeneration : p.nextGeneration = 0 := by
      rw [nextGeneration, hnext, List.getElem?_eq_none (Nat.le_refl _)]
      rfl
    simp only [nextSlot, hfree, extend, bind, Except.bind, enliven, ← hindex, hnext]
    simp [Attempt.require, nextHandle, hgeneration, taken, hfree, zeros, pure, Except.pure]
  | cons index rest =>
    obtain ⟨g, hslot⟩ := getElem?_of_mem_free wf index (by simp [hfree])
    have hspan : p.Spans index.toNat := wf.spans (List.getElem?_eq_some_iff.mp hslot).1
    have hnext : p.nextIndex = index := by simp [nextIndex, hfree]
    have hgeneration : p.nextGeneration = g := by simp [nextGeneration, hnext, hslot]
    have hclear : p.setSlotValues _ p.zeros = _ := setSlotValues_eq hspan length_zeros
    simp only [zeros] at hclear
    simp only [nextSlot, hfree, hclear, bind, Except.bind, pure, Except.pure, enliven,
      withBlock_slots, hslot]
    simp [Attempt.require, nextHandle, hnext, hgeneration, taken, hfree, zeros]

theorem allocate_eq :
    p.allocate = .decided (p.viewed?.or p.full?) (p.nextHandle, p.taken) := by
  unfold allocate
  rw [demandUnviewed_eq]
  exact Attempt.decided_bind fun _ => take_eq wf

end Taking

/-! ## Taking a slot for values that are there -/

/-- The pool once the next slot is taken and given these values. -/
def filled (p : Pool) (values : List Scalar) : Pool :=
  p.taken.withBlock p.nextIndex.toNat values

@[simp] theorem filled_id : (p.filled values).id = p.id := taken_id
@[simp] theorem filled_config : (p.filled values).config = p.config := taken_config

theorem duplicate_eq (wf : p.WellFormed) :
    p.duplicate h =
      .decided (p.viewed?.or ((p.flawed? h).or p.full?))
        (p.nextHandle, p.filled (p.block h.index.toNat)) := by
  unfold duplicate
  rw [demandUnviewed_eq, demand_eq wf, take_eq wf]
  refine Attempt.decided_bind fun _ => Attempt.decided_bind fun hf => ?_
  have hlive := liveAt_of_flawed? wf hf
  refine Attempt.decided_bind_ok fun hfull => ?_
  have wf' : p.taken.WellFormed := wellFormed_taken wf (full?_eq_none_iff.mp hfull)
  have hi : h.index.toNat < p.taken.totalSlots := Nat.lt_of_lt_of_le hlive.lt totalSlots_le_taken
  have hne : h.index.toNat ≠ p.nextIndex.toNat :=
    fun he => not_liveAt_nextIndex wf _ (he ▸ hlive)
  have hnext : p.taken.Spans p.nextIndex.toNat := wf'.spans (nextIndex_lt_totalSlots_taken wf)
  have hblock : p.taken.block h.index.toNat = p.block h.index.toNat := by
    rw [block_taken wf hi, if_neg hne]
  have hlen : (p.block h.index.toNat).length = p.taken.stride := by
    rw [length_block (wf.spans hlive.lt), taken_stride]
  simp only [slotValues_eq (wf'.spans hi), hblock, nextHandle_index, bind, Except.bind,
    setSlotValues_eq hnext hlen, pure, Except.pure]
  rfl

/-! ## Releasing -/

/-- The pool once the slot that a handle names is released: the slot is in its next
generation, and the first to be used again. Its scalars stay. -/
def released (p : Pool) (h : Handle) : Pool :=
  { p with
    slots := p.slots.set h.index.toNat ⟨h.generation + 1, false⟩
    free := h.index :: p.free
    live := p.live - 1 }

@[simp] theorem released_id : (p.released h).id = p.id := rfl
@[simp] theorem released_config : (p.released h).config = p.config := rfl
@[simp] theorem released_stride : (p.released h).stride = p.stride := rfl
@[simp] theorem released_scalars : (p.released h).scalars = p.scalars := rfl
@[simp] theorem released_readers : (p.released h).readers = p.readers := rfl
@[simp] theorem released_writers : (p.released h).writers = p.writers := rfl
@[simp] theorem released_block : (p.released h).block i = p.block i := rfl

@[simp] theorem totalSlots_released : (p.released h).totalSlots = p.totalSlots := by
  simp [released, totalSlots]

theorem live_pos (wf : p.WellFormed) {generation : UInt32} (hlive : p.LiveAt i generation) :
    0 < p.live := by
  rw [wf.live_eq, List.countP_pos_iff]
  exact ⟨_, List.mem_of_getElem? hlive, rfl⟩

/-- Releasing tests the handle and nothing else: no view stands in its way. -/
theorem release_eq (wf : p.WellFormed) :
    p.release h = .decided (p.flawed? h) (.invalid, p.released h) := by
  unfold release
  rw [demand_eq wf]
  refine Attempt.decided_bind_ok fun hf => ?_
  have hlive := liveAt_of_flawed? wf hf
  have hslot : p.slots[h.index.toNat]? = some ⟨h.generation, true⟩ := hlive
  simp [hslot, Attempt.require, live_pos wf hlive, bind, Except.bind, released, pure, Except.pure]

theorem getElem?_slots_released (hlive : p.LiveAt h.index.toNat h.generation) :
    (p.released h).slots[j]? =
      if j = h.index.toNat then some ⟨h.generation + 1, false⟩ else p.slots[j]? := by
  have hlt : h.index.toNat < p.slots.length := hlive.lt
  simp only [released, List.getElem?_set, hlt, if_true, eq_comm]

/-- Releasing a live slot keeps a pool well-formed. -/
theorem wellFormed_released (wf : p.WellFormed) (hlive : p.LiveAt h.index.toNat h.generation) :
    (p.released h).WellFormed := by
  have hslot : p.slots[h.index.toNat]? = some ⟨h.generation, true⟩ := hlive
  obtain ⟨hlt, hget⟩ := List.getElem?_eq_some_iff.mp hslot
  have hout : h.index ∉ p.free := by
    rw [wf.mem_free, hslot]
    simp
  refine ⟨wf.id_ne_none, ?_, ?_, ?_, ?_, ?_⟩
  · rw [totalSlots_released]
    exact wf.length_scalars
  · rw [totalSlots_released]
    exact wf.totalSlots_le
  · simp only [released, wf.live_eq, List.countP_set hlt, hget]
    simp
  · exact List.nodup_cons.mpr ⟨hout, wf.nodup_free⟩
  · intro i
    rw [getElem?_slots_released hlive]
    simp only [released, List.mem_cons]
    split
    · rename_i hi
      simp [UInt32.toNat_inj.mp hi]
    · rename_i hi
      have hne : i ≠ h.index := fun he => hi (by rw [he])
      rw [← wf.mem_free i]
      simp [hne]

/-! ## Values -/

/-- Other values in a slot keep a pool well-formed. -/
theorem wellFormed_withBlock (wf : p.WellFormed) (hi : p.Spans i) (hv : values.length = p.stride) :
    (p.withBlock i values).WellFormed := by
  refine ⟨wf.id_ne_none, ?_, wf.totalSlots_le, wf.live_eq, wf.nodup_free, wf.mem_free⟩
  rw [length_scalars_withBlock hi hv]
  exact wf.length_scalars

theorem readable_eq (wf : p.WellFormed) :
    p.readable h = .decided ((p.flawed? h).or p.written?) h.index.toNat := by
  unfold readable
  rw [demand_eq wf, demandUnwritten_eq]
  refine Attempt.decided_bind fun _ => ?_
  cases p.written? <;> rfl

theorem writable_eq (wf : p.WellFormed) :
    p.writable h = .decided ((p.flawed? h).or p.viewed?) h.index.toNat := by
  unfold writable
  rw [demand_eq wf, demandUnviewed_eq]
  refine Attempt.decided_bind fun _ => ?_
  cases p.viewed? <;> rfl

theorem values_eq (wf : p.WellFormed) :
    p.values h = .decided ((p.flawed? h).or p.written?) (p.block h.index.toNat) := by
  unfold values
  rw [readable_eq wf]
  refine Attempt.decided_bind_ok fun hnone => ?_
  rw [Option.or_eq_none_iff] at hnone
  exact slotValues_eq (wf.spans (liveAt_of_flawed? wf hnone.1).lt)

theorem setValues_eq (wf : p.WellFormed) (hv : values.length = p.stride) :
    p.setValues h values =
      .decided ((p.flawed? h).or p.viewed?) (p.withBlock h.index.toNat values) := by
  unfold setValues
  rw [writable_eq wf]
  refine Attempt.decided_bind_ok fun hnone => ?_
  rw [Option.or_eq_none_iff] at hnone
  exact setSlotValues_eq (wf.spans (liveAt_of_flawed? wf hnone.1).lt) hv

theorem overwrite_eq (wf : p.WellFormed) :
    p.overwrite h values =
      .decided ((p.flawed? h).or p.viewed?)
        (overlay values (p.block h.index.toNat),
          p.withBlock h.index.toNat (overlay values (p.block h.index.toNat))) := by
  unfold overwrite
  rw [writable_eq wf]
  refine Attempt.decided_bind_ok fun hnone => ?_
  rw [Option.or_eq_none_iff] at hnone
  exact overwriteAt_eq (wf.spans (liveAt_of_flawed? wf hnone.1).lt)

/-! ## Views and reservations -/

/-- The pool with one more view of a kind counted. -/
def viewOpened (p : Pool) (writable : Bool) : Pool :=
  if writable then { p with writers := p.writers + 1 } else { p with readers := p.readers + 1 }

theorem openView_eq (wf : p.WellFormed) (writable : Bool) :
    p.openView h writable =
      .decided ((p.flawed? h).or (if writable then p.viewed? else p.written?))
        (⟨h.index.toNat, writable⟩, p.viewOpened writable) := by
  unfold openView viewOpened
  rw [readable_eq wf, writable_eq wf]
  cases writable with
  | true => simp only [if_true]; cases (p.flawed? h).or p.viewed? <;> rfl
  | false => simp only [Bool.false_eq_true, if_false]; cases (p.flawed? h).or p.written? <;> rfl

/-- Counting views and reserving memory are no matter of well-formedness. -/
theorem wellFormed_counts (wf : p.WellFormed) (readers writers reserved : Nat) :
    { p with readers, writers, reserved }.WellFormed :=
  ⟨wf.id_ne_none, wf.length_scalars, wf.totalSlots_le, wf.live_eq, wf.nodup_free, wf.mem_free⟩

/-- Reserving changes nothing but the room there is. -/
theorem reserve_eq (n : Nat) : ∃ reserved, p.reserve n = { p with reserved } := by
  unfold reserve
  split
  · exact ⟨_, rfl⟩
  · exact ⟨p.reserved, rfl⟩

theorem wellFormed_reserve (wf : p.WellFormed) (n : Nat) : (p.reserve n).WellFormed := by
  obtain ⟨reserved, heq⟩ := p.reserve_eq n
  rw [heq]
  exact wellFormed_counts wf _ _ _

end ParticleStore.Pool
