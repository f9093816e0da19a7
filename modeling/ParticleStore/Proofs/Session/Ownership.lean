/-
ParticleStore.Proofs.Session.Ownership — who holds which slot.

As long as slots are taken and released by particles only, every live slot is held by
exactly one particle: `slotsOwned_run` says so of every run of steps, in any order and
whatever the steps are refused for. Nothing else is asked of a run. Views may be open
at any time, and even handles may be copied and forged, as long as nothing is
allocated, duplicated or released through them.
-/
import ParticleStore.Proofs.Session.Sound

namespace ParticleStore.Session

open Particle World

variable {dim spacedim : Nat} {s : Session dim spacedim} {key i : Nat} {p : Particle dim spacedim}

/-- Particles hold the live slots, one each. -/
structure SlotsOwned (s : Session dim spacedim) : Prop where
  /-- A handle that is not the invalid one names a live slot of the particle's own pool, in
  the slot's generation. -/
  handle_live : ∀ key p, s.particles.find? key = some p → p.handle ≠ .invalid →
    ∃ i pool, p.pool = some i ∧ s.world.pool? i = some pool ∧ p.handle.pool = pool.id ∧
      pool.slots[p.handle.index.toNat]? = some ⟨p.handle.generation, true⟩
  /-- No two particles hold the same slot of the same pool. -/
  slot_inj : ∀ key key' p p' i h h', s.particles.find? key = some p →
    s.particles.find? key' = some p' → p.slot? = some (i, h) → p'.slot? = some (i, h') →
    h.index = h'.index → key = key'
  /-- A pool counts as many live slots as there are particles that hold one of it. -/
  live_eq : ∀ i pool, s.world.pool? i = some pool →
    pool.live = s.particles.values.countP (·.holdsSlotOf i)
  /-- No particle was ever without the slot that it had to give back. -/
  never_failed : ∀ id error, .releaseFailed id error ∉ s.world.events

theorem contents_of_owns {ps : List (Particle dim spacedim)} {h : Handle} {w : World}
    (owns : w.Owns (slotsOf ps)) (hp : p ∈ ps) (hs : p.slot? = some (i, h)) :
    (i, h) ∈ slotsOf ps ∧ (w.contents i h).isSome := by
  have hmem : (i, h) ∈ slotsOf ps := by
    refine List.mem_flatMap.mpr ⟨p, hp, ?_⟩
    rw [slots_of_slot hs]
    exact List.mem_singleton_self _
  exact ⟨hmem, owns.live _ hmem⟩

/-- The slots of a pool that are held are as many as the particles that hold one. -/
theorem countP_slotsOf (ps : List (Particle dim spacedim)) (i : Nat) :
    (slotsOf ps).countP (fun slot => slot.1 == i) = ps.countP (·.holdsSlotOf i) := by
  induction ps with
  | nil => rfl
  | cons p rest ih =>
    rw [slotsOf_cons, List.countP_append, ih, List.countP_cons, Nat.add_comm]
    unfold holdsSlotOf slots
    cases p.slot? with
    | none => simp
    | some slot => simp [List.countP_cons]

/-- Where the particles of a sound session are the sole holders, they own their slots. -/
theorem Sound.slotsOwned (sound : s.Sound True) : s.SlotsOwned := by
  have owns := sound.2.owns trivial
  refine ⟨?_, ?_, ?_, ?_⟩
  · intro key p hp hvalid
    have hvalid' : p.handle.isValid = true := by simpa [Handle.isValid] using hvalid
    cases hpool : p.pool with
    | none => exact absurd ((sound.placed hp).handle hpool) hvalid
    | some i =>
      obtain ⟨pool, hi, hid⟩ := (sound.placed hp).pool i hpool
      have hs : p.slot? = some (i, p.handle) := slot?_eq_some_iff.mpr ⟨hpool, rfl, hvalid'⟩
      obtain ⟨-, hsome⟩ := contents_of_owns owns (Registry.mem_values_of_find? hp) hs
      rw [contents_of_pool hi, Pool.isSome_contents (sound.wellFormed.pool i pool hi)] at hsome
      exact ⟨i, pool, rfl, hi, hid hvalid', hsome.2⟩
  · intro key key' p p' i h h' hp hp' hs hs' hindex
    by_contra hne
    have owns' := (sound.split hp).owns trivial
    have hmem' : p' ∈ (s.particles.erase key).values := by
      have hkept : (s.particles.erase key).find? key' = some p' := by
        rw [Registry.find?_erase_of_ne _ (Ne.symm hne)]
        exact hp'
      exact Registry.mem_values_of_find? hkept
    obtain ⟨-, hsome⟩ := contents_of_owns owns' List.mem_cons_self hs
    obtain ⟨-, hsome'⟩ := contents_of_owns owns' (List.mem_cons_of_mem p hmem') hs'
    obtain ⟨pool, hi, -⟩ := (sound.placed hp).slot hs
    rw [contents_of_pool hi] at hsome hsome'
    have heq : h = h' := Pool.eq_of_index_eq (sound.wellFormed.pool i pool hi) hsome hsome' hindex
    have hnodup := owns'.nodup
    rw [slotsOf_cons, slots_of_slot hs, List.singleton_append] at hnodup
    refine (List.nodup_cons.mp hnodup).1 (List.mem_flatMap.mpr ⟨p', hmem', ?_⟩)
    rw [slots_of_slot hs', heq]
    exact List.mem_singleton_self _
  · intro i pool hi
    rw [owns.count i pool hi, countP_slotsOf]
  · intro id error he
    exact sound.2.quiet trivial _ he rfl

/-- **Every live slot has one owner.** After any run of steps none of which takes or
releases a slot by its bare handle, the particles hold the live slots, one each, and no
release of theirs has ever failed. -/
theorem slotsOwned_run (steps : List (Step dim spacedim))
    (hbare : ∀ step ∈ steps, step.isBare = false) :
    (run ({} : Session dim spacedim) steps).2.SlotsOwned :=
  (sound_run sound_empty steps fun _ => hbare).slotsOwned

/-- A run in which a particle with values is copied beside an open view, moved to another
pool, and dropped. -/
theorem slotsOwned_run_of_views :
    (run ({} : Session 1 1)
      [.makePool { stride := 1 }, .makePool { stride := 1 }, .make 0, .moveTo 0 0,
        .setValues 0 [.zero], .openView 0 0 (.ofParticle 0) true, .copy 0 1, .closeView 0,
        .copy 0 1, .moveTo 1 1, .openView 0 0 (.ofParticle 0) false, .drop 0]).2.SlotsOwned :=
  slotsOwned_run _ (by decide)

end ParticleStore.Session
