/-
ParticleStore.Proofs.World.Filling — slots taken one after the other, and given back.

`Fills w slots w'` says of a world all that a row of allocations can change: the slots in the
list are live as well (`Gains`), no other handle shows anything else, and a table has
grown only as far as its pool needed. A pool uses the slots released before its table
grows, so after `n` allocations the table is as long as it was, or as long as there are
live slots (`Pool.totalSlots_taken_eq_max`). Once the slots are lost again every handle of
every pool shows what it showed at first (`Fills.undone`); only a table stays longer.
-/
import ParticleStore.Proofs.World.Growth

namespace ParticleStore

namespace Pool

variable {p : Pool} {values : List Scalar}

/-- While a slot waits to be used again, not every slot is live. -/
theorem WellFormed.live_lt (wf : p.WellFormed) (hfree : p.free ≠ []) : p.live < p.totalSlots := by
  obtain ⟨index, hindex⟩ := List.exists_mem_of_ne_nil _ hfree
  obtain ⟨slot, hslot, hdead⟩ := (wf.mem_free index).mp hindex
  rw [wf.live_eq, totalSlots, List.countP_lt_length_iff]
  exact ⟨slot, List.mem_of_getElem? hslot, by simp [hdead]⟩

/-- The table grows only if every slot is live. -/
theorem totalSlots_taken_eq_max (wf : p.WellFormed) :
    p.taken.totalSlots = max p.totalSlots (p.live + 1) := by
  rw [totalSlots_taken]
  split
  · rename_i hfree
    rw [wf.live_eq_totalSlots hfree]
    omega
  · rename_i hfree
    have hlt := wf.live_lt hfree
    omega

theorem totalSlots_filled_eq_max (wf : p.WellFormed) :
    (p.filled values).totalSlots = max p.totalSlots (p.live + 1) :=
  totalSlots_taken_eq_max wf

end Pool

namespace World

variable {w w' w'' : World} {i : Nat} {p p' : Pool} {values : List Scalar}
  {slots slots' : List HeldSlot}

/-- The world `w'` is `w` with the slots in the list live as well, and nothing else. -/
structure Fills (w : World) (slots : List HeldSlot) (w' : World) : Prop where
  gains : w.Gains slots w'
  others : ∀ i h, (i, h) ∉ slots → w'.contents i h = w.contents i h
  totalSlots_eq : ∀ i p p', w.pool? i = some p → w'.pool? i = some p' →
    p'.totalSlots = max p.totalSlots (p.live + slots.countP fun slot => slot.1 == i)

namespace Fills

theorem refl (wf : w.WellFormed) : w.Fills [] w where
  gains := .refl w
  others _ _ _ := rfl
  totalSlots_eq i p p' hp hp' := by
    rw [hp] at hp'
    cases hp'
    have hle := (wf.pool i p hp).live_le
    simp only [List.countP_nil]
    omega

/-- One slot is taken for values. -/
theorem of_filled (wf : w.WellFormed) (hp : w.pool? i = some p) (hview : p.isViewed = false)
    (hroom : p.live < p.config.slotLimit) (hv : values.length = p.stride) :
    w.Fills [(i, p.nextHandle)] (w.setPool i (p.filled values)) := by
  have wfp := wf.pool i p hp
  have u := update_setPool hp (Pool.update_filled wfp hview hroom hv)
  have hfresh : w.contents i p.nextHandle = none := by
    rw [contents_of_pool hp, Pool.contents_nextHandle wfp]
  refine ⟨.of_update hfresh u, fun j k hout => ?_, fun j q q' hq hq' => ?_⟩
  · exact u.contents_of_ne fun hsame => hout (by simp [hsame.1, hsame.2])
  · by_cases hj : j = i
    · subst hj
      rw [hp] at hq
      rw [pool?_setPool_self (by simp [hp])] at hq'
      cases hq
      cases hq'
      simpa using Pool.totalSlots_filled_eq_max wfp
    · rw [pool?_setPool_of_ne hj, hq] at hq'
      cases hq'
      have hle := (wf.pool j q hq).live_le
      simp [Ne.symm hj]
      omega

theorem trans (f : w.Fills slots w') (f' : w'.Fills slots' w'') :
    w.Fills (slots ++ slots') w'' where
  gains := f.gains.trans f'.gains
  others i h hout := by
    rw [List.mem_append, not_or] at hout
    exact (f'.others i h hout.2).trans (f.others i h hout.1)
  totalSlots_eq i p p'' hp hp'' := by
    obtain ⟨p', hp', -⟩ := f.gains.evolves.pool i p hp
    rw [f'.totalSlots_eq i p' p'' hp' hp'', f.totalSlots_eq i p p' hp hp',
      f.gains.live_eq i p p' hp hp', List.countP_append]
    omega

/-- Once the slots are lost again, every handle shows what it showed at first. -/
theorem undone (f : w.Fills slots w') (l : w'.Loses slots' w'')
    (hsame : ∀ slot, slot ∈ slots' ↔ slot ∈ slots) :
    ∀ i h, w''.contents i h = w.contents i h := by
  intro i h
  by_cases hmem : (i, h) ∈ slots
  · rw [(f.gains.new _ hmem).1]
    exact (l.gone _ ((hsame _).mpr hmem)).2
  · rw [l.kept i h fun hlost => hmem ((hsame _).mp hlost), f.others i h hmem]

end Fills

end World

end ParticleStore
