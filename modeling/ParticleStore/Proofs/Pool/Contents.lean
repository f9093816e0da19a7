/-
ParticleStore.Proofs.Pool.Contents — a pool as a map from handles to values.

`contents p h` is what the handle `h` shows of the pool: the scalars of its slot
while the slot is live in the handle's generation, and nothing otherwise. Seen
this way an operation changes one entry of a map: `Update p h entry p'` says that
`p'` is `p` with `h` showing `entry`, and that everything else a caller can tell
from the pool follows. Taking, copying, releasing and writing are all updates
(`update_taken`, `update_filled`, `update_released`, `update_withBlock`); what
one handle shows is never touched through another.
-/
import ParticleStore.Proofs.Pool.Operations
import Mathlib.Logic.Function.Basic

namespace ParticleStore.Pool

variable {p p' : Pool} {h h' : Handle} {i : Nat} {values : List Scalar}

/-- What a handle shows: the values of the live slot that it names. -/
def contents (p : Pool) (h : Handle) : Option (List Scalar) :=
  match p.locate h with
  | .ok i => some (p.block i)
  | .error _ => none

/-- Counting views and reserving memory change no entry. -/
@[simp] theorem contents_counts (readers writers reserved : Nat) :
    { p with readers, writers, reserved }.contents h = p.contents h := rfl

theorem contents_eq_some_iff (wf : p.WellFormed) :
    p.contents h = some values ↔
      h.pool = p.id ∧ p.LiveAt h.index.toNat h.generation ∧ p.block h.index.toNat = values := by
  have hok := locate_eq_ok_iff (h := h) wf (i := h.index.toNat)
  unfold contents
  cases hloc : p.locate h with
  | error flaw =>
    rw [hloc] at hok
    constructor
    · intro he; cases he
    · rintro ⟨hpool, hlive, -⟩
      cases hok.mpr ⟨hpool, rfl, hlive⟩
  | ok i =>
    obtain ⟨hpool, rfl, hlive⟩ := (locate_eq_ok_iff wf).mp hloc
    simp [hpool, hlive]

theorem isSome_contents (wf : p.WellFormed) :
    (p.contents h).isSome ↔ h.pool = p.id ∧ p.LiveAt h.index.toNat h.generation := by
  rw [Option.isSome_iff_exists]
  constructor
  · rintro ⟨values, hv⟩
    obtain ⟨hpool, hlive, -⟩ := (contents_eq_some_iff wf).mp hv
    exact ⟨hpool, hlive⟩
  · rintro ⟨hpool, hlive⟩
    exact ⟨_, (contents_eq_some_iff wf).mpr ⟨hpool, hlive, rfl⟩⟩

theorem contents_eq_block (wf : p.WellFormed) (hf : p.flawed? h = none) :
    p.contents h = some (p.block h.index.toNat) := by
  obtain ⟨i, hloc⟩ := flawed?_eq_none_iff.mp hf
  obtain ⟨-, rfl, -⟩ := (locate_eq_ok_iff wf).mp hloc
  rw [contents, hloc]

/-- A handle is refused exactly when it shows nothing. -/
theorem flawed?_eq_none_iff_contents : p.flawed? h = none ↔ (p.contents h).isSome := by
  unfold flawed? contents
  cases p.locate h <;> simp

theorem isLive_eq_isSome : p.isLive h = (p.contents h).isSome := by
  unfold isLive contents
  cases p.locate h <;> rfl

/-- A handle shows as many values as the stride. -/
theorem length_contents (wf : p.WellFormed) (hv : p.contents h = some values) :
    values.length = p.stride := by
  obtain ⟨-, hlive, rfl⟩ := (contents_eq_some_iff wf).mp hv
  exact length_block (wf.spans hlive.lt)

/-- A handle that shows values is not the invalid one. -/
theorem isValid_of_contents (wf : p.WellFormed) (hv : p.contents h = some values) :
    h.isValid = true := by
  exact wf.isValid_of_pool ((contents_eq_some_iff wf).mp hv).1

/-- Of all handles with one index, at most one shows values. -/
theorem eq_of_index_eq (wf : p.WellFormed) (hh : (p.contents h).isSome)
    (hh' : (p.contents h').isSome) (hindex : h.index = h'.index) : h = h' := by
  obtain ⟨hpool, hlive⟩ := (isSome_contents wf).mp hh
  obtain ⟨hpool', hlive'⟩ := (isSome_contents wf).mp hh'
  have hgeneration : h.generation = h'.generation := by
    rw [← hindex] at hlive'
    have heq := hlive.symm.trans hlive'
    simp at heq
    exact heq
  cases h
  cases h'
  simp_all

/-! ## Updates -/

/-- The pool `p'` is `p` with one entry changed: the handle `h` shows `entry`. -/
structure Update (p : Pool) (h : Handle) (entry : Option (List Scalar)) (p' : Pool) : Prop where
  wellFormed : p'.WellFormed
  id_eq : p'.id = p.id
  config_eq : p'.config = p.config
  readers_eq : p'.readers = p.readers
  writers_eq : p'.writers = p.writers
  totalSlots_le : p.totalSlots ≤ p'.totalSlots
  live_add : p'.live + (p.contents h).isSome.toNat = p.live + entry.isSome.toNat
  contents_eq : p'.contents = Function.update p.contents h entry
  /-- Scalars that a view shows stay as they are. -/
  scalars_eq : p.isViewed = true → p'.scalars = p.scalars

namespace Update

variable {entry entry' : Option (List Scalar)} {p'' : Pool}

theorem stride_eq (u : p.Update h entry p') : p'.stride = p.stride := by
  rw [stride, u.config_eq, stride]

theorem isViewed_eq (u : p.Update h entry p') : p'.isViewed = p.isViewed := by
  rw [isViewed, u.readers_eq, u.writers_eq, isViewed]

theorem contents_self (u : p.Update h entry p') : p'.contents h = entry := by
  rw [u.contents_eq, Function.update_self]

theorem contents_of_ne (u : p.Update h entry p') (hne : h' ≠ h) :
    p'.contents h' = p.contents h' := by
  rw [u.contents_eq, Function.update_of_ne hne]

/-- The later of two updates of one entry counts. -/
theorem trans (u : p.Update h entry p') (u' : p'.Update h entry' p'') :
    p.Update h entry' p'' where
  wellFormed := u'.wellFormed
  id_eq := u'.id_eq.trans u.id_eq
  config_eq := u'.config_eq.trans u.config_eq
  readers_eq := u'.readers_eq.trans u.readers_eq
  writers_eq := u'.writers_eq.trans u.writers_eq
  totalSlots_le := Nat.le_trans u.totalSlots_le u'.totalSlots_le
  live_add := by
    have hfirst := u.live_add
    have hsecond := u'.live_add
    rw [u.contents_self] at hsecond
    omega
  contents_eq := by rw [u'.contents_eq, u.contents_eq, Function.update_idem]
  scalars_eq hv := (u'.scalars_eq (u.isViewed_eq.trans hv)).trans (u.scalars_eq hv)

end Update

/-! ## The operations as updates -/

section Operations

variable (wf : p.WellFormed)

include wf

/-- The handle issued next shows nothing yet. -/
theorem contents_nextHandle : p.contents p.nextHandle = none := by
  rw [← Option.not_isSome_iff_eq_none, isSome_contents wf]
  rintro ⟨-, hlive⟩
  exact not_liveAt_nextIndex wf _ hlive

/-- A slot written to shows the new values, and every other slot what it showed. -/
theorem contents_withBlock (hi : i < p.totalSlots) (hv : values.length = p.stride) (k : Handle) :
    (p.withBlock i values).contents k =
      if k.index.toNat = i then (p.contents k).map fun _ => values else p.contents k := by
  simp only [contents, withBlock_locate]
  cases hloc : p.locate k with
  | error flaw => simp
  | ok j =>
    obtain ⟨-, rfl, -⟩ := (locate_eq_ok_iff wf).mp hloc
    by_cases hindex : k.index.toNat = i
    · rw [if_pos hindex, hindex]
      exact congrArg some (block_withBlock_self (wf.spans hi) hv)
    · rw [if_neg hindex]
      exact congrArg some (block_withBlock_of_ne (wf.spans hi) hv hindex)

/-- Writing to a slot changes the entry of the one handle that names it. -/
theorem update_withBlock (hh : (p.contents h).isSome) (hview : p.isViewed = false)
    (hv : values.length = p.stride) :
    p.Update h (some values) (p.withBlock h.index.toNat values) := by
  obtain ⟨hpool, hlive⟩ := (isSome_contents wf).mp hh
  have hlt : h.index.toNat < p.totalSlots := hlive.lt
  have wf' : (p.withBlock h.index.toNat values).WellFormed := 
    wellFormed_withBlock wf (wf.spans hlt) hv
  refine ⟨wf', rfl, rfl, rfl, rfl, Nat.le_refl _, by simp [hh], ?_, by simp [hview]⟩
  funext k
  rw [contents_withBlock wf hlt hv]
  by_cases hk : k = h
  · subst hk
    obtain ⟨old, hold⟩ := Option.isSome_iff_exists.mp hh
    rw [if_pos rfl, hold, Function.update_self]
    rfl
  · rw [Function.update_of_ne hk]
    split
    · -- two handles with one index do not both show values
      rename_i hindex
      cases hold : p.contents k with
      | none => rfl
      | some old =>
        have hsome : (p.contents k).isSome := by rw [hold]; rfl
        exact absurd (eq_of_index_eq wf hsome hh (UInt32.toNat_inj.mp hindex)) hk
    · rfl

/-- Taking a slot adds an entry of zeros. -/
theorem update_taken (hview : p.isViewed = false) (hroom : p.live < p.config.slotLimit) :
    p.Update p.nextHandle (some p.zeros) p.taken := by
  have wf' : p.taken.WellFormed := wellFormed_taken wf hroom
  have hnext := nextIndex_lt_totalSlots_taken wf
  have hlive : p.taken.LiveAt p.nextIndex.toNat p.nextGeneration := by
    rw [LiveAt, getElem?_slots_taken wf, if_pos rfl]
  refine ⟨wf', by simp, by simp, by simp, by simp, totalSlots_le_taken, ?_, ?_, by simp [hview]⟩
  · rw [contents_nextHandle wf, taken_live]
    rfl
  funext k
  by_cases hk : k = p.nextHandle
  · subst hk
    rw [Function.update_self, contents_eq_some_iff wf']
    refine ⟨by simp, hlive, ?_⟩
    rw [nextHandle_index, block_taken wf hnext, if_pos rfl]
  · rw [Function.update_of_ne hk]
    apply Option.ext
    intro values
    rw [contents_eq_some_iff wf', contents_eq_some_iff wf, taken_id, LiveAt,
      getElem?_slots_taken wf]
    by_cases hindex : k.index.toNat = p.nextIndex.toNat
    · -- the slot was not live before, and afterwards is live for the new handle only
      have hdead := not_liveAt_nextIndex wf k.generation
      rw [← hindex] at hdead
      rw [if_pos hindex]
      constructor
      · rintro ⟨hpool, hslot, -⟩
        exfalso
        apply hk
        obtain ⟨pool, index, generation⟩ := k
        simp only [Option.some.injEq, Slot.mk.injEq] at hslot
        simp only [nextHandle, Handle.mk.injEq]
        exact ⟨hpool, UInt32.toNat_inj.mp hindex, hslot.1.symm⟩
      · rintro ⟨-, hslot, -⟩
        exact absurd hslot hdead
    · rw [if_neg hindex]
      refine and_congr_right fun _ => and_congr_right fun hslot => ?_
      have hlt : k.index.toNat < p.totalSlots := LiveAt.lt hslot
      rw [block_taken wf (Nat.lt_of_lt_of_le hlt totalSlots_le_taken), if_neg hindex]

/-- Taking a slot for given values adds an entry with them. -/
theorem update_filled (hview : p.isViewed = false) (hroom : p.live < p.config.slotLimit)
    (hv : values.length = p.stride) : p.Update p.nextHandle (some values) (p.filled values) := by
  have u := update_taken wf hview hroom
  have hsome : (p.taken.contents p.nextHandle).isSome := by
    rw [u.contents_self]
    rfl
  exact u.trans (update_withBlock u.wellFormed hsome (by simp [hview]) (by simp [hv]))

/-- Releasing a slot removes its entry. -/
theorem update_released (hh : (p.contents h).isSome) : p.Update h none (p.released h) := by
  obtain ⟨hpool, hlive⟩ := (isSome_contents wf).mp hh
  have wf' : (p.released h).WellFormed := wellFormed_released wf hlive
  refine ⟨wf', rfl, rfl, rfl, rfl, by simp, ?_, ?_, fun _ => rfl⟩
  · have hpos := live_pos wf hlive
    simp only [released, hh]
    simp
    omega
  funext k
  apply Option.ext
  intro values
  rw [contents_eq_some_iff wf', released_id, released_block, LiveAt, getElem?_slots_released hlive]
  by_cases hk : k = h
  · subst hk
    rw [Function.update_self]
    simp
  · rw [Function.update_of_ne hk, contents_eq_some_iff wf, LiveAt]
    split
    · -- the handle has the index of the slot released, and so showed nothing before
      rename_i hindex
      constructor
      · rintro ⟨-, hslot, -⟩
        simp at hslot
      · rintro ⟨hpool', hlive', -⟩
        exfalso
        apply hk
        apply eq_of_index_eq wf _ hh (UInt32.toNat_inj.mp hindex)
        exact (isSome_contents wf).mpr ⟨hpool', hlive'⟩
    · rfl

end Operations

/-! ## Changes that leave the same handles good -/

/-- The pool `p'` is well-formed, and the handles that show something are those of `p`. -/
structure Alike (p p' : Pool) : Prop where
  wellFormed : p'.WellFormed
  id_eq : p'.id = p.id
  live_eq : p'.live = p.live
  isSome_eq : ∀ k, (p'.contents k).isSome = (p.contents k).isSome

theorem alike_counts (wf : p.WellFormed) (readers writers reserved : Nat) :
    p.Alike { p with readers, writers, reserved } :=
  ⟨wellFormed_counts wf _ _ _, rfl, rfl, fun _ => rfl⟩

theorem alike_viewOpened (wf : p.WellFormed) (writable : Bool) : p.Alike (p.viewOpened writable) := by
  unfold viewOpened
  split
  · exact alike_counts wf _ _ _
  · exact alike_counts wf _ _ _

theorem alike_closeView (wf : p.WellFormed) (v : View) : p.Alike (p.closeView v) := by
  unfold closeView
  split
  · exact alike_counts wf _ _ _
  · exact alike_counts wf _ _ _

theorem alike_reserve (wf : p.WellFormed) (n : Nat) : p.Alike (p.reserve n) := by
  obtain ⟨reserved, heq⟩ := p.reserve_eq n
  rw [heq]
  exact alike_counts wf _ _ _

theorem alike_withBlock (wf : p.WellFormed) (hi : p.Spans i) (hv : values.length = p.stride) :
    p.Alike (p.withBlock i values) := by
  refine ⟨wellFormed_withBlock wf hi hv, rfl, rfl, fun k => ?_⟩
  unfold contents
  rw [withBlock_locate]
  cases p.locate k <;> rfl

end ParticleStore.Pool
