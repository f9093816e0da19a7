/-
ParticleStore.Proofs.Session.Moving — a particle that goes to another pool.

A particle that holds a slot takes its values along: they are read, written to a new slot of
the target, and only then the old slot is released. Three causes can stand in the way, and
`unmovable?` names the first of them; it asks the pools alone, for the slot that is read is
live and the one that is released is known to be good. Source and target may be one pool,
which then needs room for both slots for a while.

`Moved` says what has become of the particle, of both pools and of everybody else, in every
state in which only particles release their slots (`moves_run`).
-/
import ParticleStore.Proofs.Session.Stale
import ParticleStore.Proofs.Session.Tenure
import ParticleStore.Proofs.World.Replacing

namespace ParticleStore

open ParticleStore.Action Particle World StepM

variable {dim spacedim : Nat} {s s' : Session dim spacedim} {key i target : Nat} {h k : Handle}
  {pl tg : Pool} {p : Particle dim spacedim}

/-- The first cause for which the values of a slot cannot move from one pool to another: slots of
another size, a view in the way, or no room. -/
def Pool.unmovable? (source target : Pool) : Option ParticleError :=
  if source.stride ≠ target.stride then some (.countMismatch source.stride target.stride)
  else if 0 < source.writers ∨ target.isViewed = true then some (.pool .storageBorrowed)
  else if target.config.slotLimit ≤ target.live then
    some (.pool (.outOfResources (target.live + 1) target.config.slotLimit))
  else none

namespace Pool

theorem unmovable?_eq (source target : Pool) :
    source.unmovable? target =
      (mismatch? source.stride target.stride).or
        ((source.written?.map .pool).or ((target.viewed?.or target.full?).map .pool)) := by
  unfold unmovable? mismatch? written? viewed? full?
  by_cases hstride : source.stride = target.stride
  · by_cases hwritten : 0 < source.writers
    · simp [hstride, hwritten]
    · by_cases hview : target.isViewed = true
      · simp [hstride, hwritten, hview]
      · by_cases hfull : target.config.slotLimit ≤ target.live
        · simp [hstride, hwritten, hview, hfull]
        · simp [hstride, hwritten, hview, hfull]
  · simp [hstride]

theorem unmovable?_eq_none_iff :
    pl.unmovable? tg = none ↔ pl.stride = tg.stride ∧ pl.writers = 0 ∧ tg.isViewed = false ∧
      tg.live < tg.config.slotLimit := by
  rw [unmovable?_eq, Option.or_eq_none_iff, mismatch?_eq_none_iff, Option.or_eq_none_iff,
    Option.map_eq_none_iff, written?_eq_none_iff, Option.map_eq_none_iff, Option.or_eq_none_iff,
    viewed?_eq_none_iff, full?_eq_none_iff]

end Pool

namespace Particle

variable {w : World}

/-- The particle in another pool, with the slot that a handle names. -/
def inPool (p : Particle dim spacedim) (target : Nat) (k : Handle) : Particle dim spacedim :=
  { p with pool := some target, handle := k }

/-- A particle whose slot is live moves unless the pools stand in the way, and its new slot then
replaces the old one. -/
theorem exec_moveTo_of_live (wf : w.WellFormed) (hs : p.slot? = some (i, h))
    (hp : w.pool? i = some pl) (ht : w.pool? target = some tg)
    (hlive : (w.contents i h).isSome) :
    ∃ w', (p.moveTo target).exec w =
        decided (pl.unmovable? tg) w (p.inPool target tg.nextHandle) w' ∧
      (pl.unmovable? tg = none →
        w.Replaces (i, h) (target, tg.nextHandle) (pl.block h.index.toNat) w') := by
  have wfp := wf.pool i pl hp
  have hgood := (World.flawed?_eq_none_iff hp).mpr hlive
  have hexec := exec_moveTo wf hs hp ht
  rw [hgood, Option.none_or, ← Pool.unmovable?_eq] at hexec
  refine ⟨_, hexec, fun hnone => ?_⟩
  obtain ⟨hstride, -, hview, hroom⟩ := Pool.unmovable?_eq_none_iff.mp hnone
  have hlen : (pl.block h.index.toNat).length = tg.stride := by
    rw [Pool.length_block_of_flawed? wfp hgood, hstride]
  have hfree : tg.viewed?.or tg.full? = none := by
    rw [Option.or_eq_none_iff, Pool.viewed?_eq_none_iff, Pool.full?_eq_none_iff]
    exact ⟨hview, hroom⟩
  have hlevel : (Event.propertiesMigrated p.id pl.id tg.id).level ≠ .warn := Level.noConfusion
  have noted := (replaces_filled wf hlive ht hfree hlen).noted hlevel
  rwa [without_events] at noted

end Particle

namespace Session

theorem perform_moveTo (hp : s.particles.find? key = some p) (ht : s.world.pool? target = some tg) :
    s.perform (.moveTo key target) =
      match (p.moveTo target).exec s.world with
      | (.ok q, w) => (.done, { s with world := w, particles := s.particles.insert key q })
      | (.error failure, w) => (.failed failure, { s with world := w }) := by
  rw [perform_eq]
  simp only [ofStep]
  rw [exec_poolPosition_of_some ht]
  exact finish_revise hp

/-- The particle `p` under a key held the slot of the handle `h` in the pool `i`. It has gone to
the pool `tg` at the position `target`, and holds the slot of the handle `k` there. -/
structure Moved (s : Session dim spacedim) (key : Nat) (p : Particle dim spacedim) (i : Nat)
    (h : Handle) (target : Nat) (tg : Pool) (k : Handle) (s' : Session dim spacedim) : Prop where
  particle_eq : s'.particles.find? key = some (p.inPool target k)
  holds : (p.inPool target k).slot? = some (target, k)
  /-- The values have come along, bit by bit. -/
  values_eq : ∃ values, p.values s.world = .ok values ∧
    (p.inPool target k).values s'.world = .ok values
  /-- The new handle is the one that the target was to issue next. -/
  issued : ∃ tg', tg.allocate = .ok (k, tg')
  /-- It is no handle of a slot that was live. -/
  handle_ne : ∀ slot : HeldSlot, (s.world.contents slot.1 slot.2).isSome → k ≠ slot.2
  /-- The old handle is refused. -/
  stale : ∀ pl', s'.world.pool? i = some pl' → pl'.locate h = .error .stale
  /-- The pool of the old slot counts one slot less, and that of the new slot one more. -/
  live_add : ∀ j pl pl', s.world.pool? j = some pl → s'.world.pool? j = some pl' →
    pl'.live + (if i = j then 1 else 0) = pl.live + if target = j then 1 else 0
  /-- Every other live slot of any pool keeps its handle and its values. -/
  kept : ∀ slot : HeldSlot, (s.world.contents slot.1 slot.2).isSome → slot ≠ (i, h) →
    s'.world.contents slot.1 slot.2 = s.world.contents slot.1 slot.2
  /-- Every other particle looks as it did. -/
  others : s.SparesOthers key s'
  /-- If the pools are two, the next slot that the old pool issues is the one released, whatever
  calls come in between. Its table does not grow, and an allocation finds zeros there. -/
  reused : target ≠ i → ∀ events w c k', s'.world.Leads PoolCall.isAny events w →
    (∀ e ∈ events, e.pool ≠ i) → (w.call c).1 = [.issued i k'] →
      k' = ⟨h.pool, h.index, h.generation + 1⟩ ∧
        (w.call c).2.tableSize i = s.world.tableSize i ∧
        (c = .allocate i →
          (w.call c).2.contents i k' = some (List.replicate tg.stride .zero))

section Moving

variable (sound : s.Sound False) (hs : p.slot? = some (i, h)) (hpl : s.world.pool? i = some pl)
  (ht : s.world.pool? target = some tg) (hnone : pl.unmovable? tg = none)

include sound hs hpl ht hnone

theorem moved_of_replaces {w' : World}
    (replaces : s.world.Replaces (i, h) (target, tg.nextHandle) (pl.block h.index.toNat) w')
    (hs' : s' = { s with
      world := w', particles := s.particles.insert key (p.inPool target tg.nextHandle) })
    (others : s.SparesOthers key s') :
    s.Moved key p i h target tg tg.nextHandle s' := by
  subst hs'
  have wf := sound.wellFormed
  have wfp := wf.pool i pl hpl
  have wft := wf.pool target tg ht
  have wf' := replaces.evolves.wellFormed wf
  obtain ⟨hstride, hwriters, hview, hroom⟩ := Pool.unmovable?_eq_none_iff.mp hnone
  have hshown := replaces.old_live
  rw [contents_of_pool hpl] at hshown
  have hgood := Pool.flawed?_eq_none_iff_contents.mpr hshown
  have hholds : (p.inPool target tg.nextHandle).slot? = some (target, tg.nextHandle) :=
    slot?_eq_some_iff.mpr ⟨rfl, rfl, wft.isValid_of_pool rfl⟩
  refine ⟨Registry.find?_insert_self .., hholds, ⟨pl.block h.index.toNat, ?_, ?_⟩, ?_, ?_, ?_, ?_, ?_,
    others, ?_⟩
  · rw [← listed_of_slot hs, listed_eq_ok_iff wf hs]
    exact ⟨pl, hpl, hwriters, Pool.contents_eq_block wfp hgood⟩
  · -- no view is open on the target, and the new handle shows the values
    obtain ⟨tg', ht', -, -, -, hwriters', -⟩ := replaces.evolves.pool target tg ht
    have hunwritten : tg'.writers = 0 := by
      simp only [Pool.isViewed, decide_eq_false_iff_not] at hview
      omega
    rw [← listed_of_slot hholds, listed_eq_ok_iff wf' hholds]
    exact ⟨tg', ht', hunwritten, (contents_of_pool ht').symm.trans replaces.contents_new⟩
  · refine ⟨tg.taken, ?_⟩
    rw [Pool.allocate_eq wft, Pool.viewed?_eq_none_iff.mpr hview, Pool.full?_eq_none_iff.mpr hroom]
    rfl
  · exact fun slot hlive => replaces.ne_new wf ht rfl hlive
  · exact fun pl' hpl' => replaces.stale_old wf hpl'
  · exact fun j q q' hq hq' => replaces.live_add hq hq'
  · exact fun slot hlive hne => replaces.contents_of_ne hlive hne
  · intro hne events w c k' leads hevents hissued
    obtain ⟨hid, hlive⟩ := (Pool.isSome_contents wfp).mp hshown
    have hzeros : pl.zeros = List.replicate tg.stride .zero := by rw [Pool.zeros, hstride]
    have hnext := issued_after_release hpl hlive (replaces.released hne pl hpl) wf' leads hevents
      hissued
    rwa [← hid, hzeros] at hnext

end Moving

/-- What comes of moving the particle `p` under a key to the pool `tg` at the position `target`. -/
structure Moves (s : Session dim spacedim) (key : Nat) (p : Particle dim spacedim) (target : Nat)
    (tg : Pool) : Prop where
  /-- A particle without a slot names the other pool, and no pool is touched. -/
  bare : p.slot? = none → s.perform (.moveTo key target) =
    (.done, { s with particles := s.particles.insert key { p with pool := some target } })
  /-- A particle with a slot has it in a pool that there is. -/
  pool : ∀ i h, p.slot? = some (i, h) → ∃ pl, s.world.pool? i = some pl
  /-- It moves just if the slots are of one size, nobody writes in its pool through a view, no view
  of the target is open, and the target has room. -/
  done_iff : ∀ i h pl, p.slot? = some (i, h) → s.world.pool? i = some pl →
    ((s.perform (.moveTo key target)).1 = .done ↔ pl.stride = tg.stride ∧ pl.writers = 0 ∧
      tg.isViewed = false ∧ tg.live < tg.config.slotLimit)
  /-- Otherwise it is refused for the first cause that there is, and nothing changes. -/
  refused : ∀ i h pl cause, p.slot? = some (i, h) → s.world.pool? i = some pl →
    pl.unmovable? tg = some cause → s.perform (.moveTo key target) = (.failed (.refused cause), s)
  moved : ∀ i h pl, p.slot? = some (i, h) → s.world.pool? i = some pl →
    pl.unmovable? tg = none → ∃ k s', s.perform (.moveTo key target) = (.done, s') ∧
      s.Moved key p i h target tg k s'

theorem Secure.moves (secure : s.Secure) (sound : s.Sound False)
    (hp : s.particles.find? key = some p) (ht : s.world.pool? target = some tg) :
    s.Moves key p target tg := by
  -- what a particle with a slot comes to, by the cause that stands in its way
  have settled (i : Nat) (h : Handle) (pl : Pool) (hs : p.slot? = some (i, h))
      (hpl : s.world.pool? i = some pl) :
      (∀ cause, pl.unmovable? tg = some cause →
        s.perform (.moveTo key target) = (.failed (.refused cause), s)) ∧
      (pl.unmovable? tg = none → ∃ k s', s.perform (.moveTo key target) = (.done, s') ∧
        s.Moved key p i h target tg k s') := by
    have hlive := secure.isSome_contents_of_slot hp hs
    have others : s.SparesOthers key (s.perform (.moveTo key target)).2 :=
      secure.others sound (beq_self_eq_true key)
    obtain ⟨w', hexec, hreplaces⟩ := exec_moveTo_of_live sound.wellFormed hs hpl ht hlive
    rw [perform_moveTo hp ht, hexec] at others ⊢
    constructor
    · intro cause hcause
      rw [hcause]
      rfl
    · intro hnone
      rw [hnone] at others ⊢
      exact ⟨_, _, rfl, moved_of_replaces sound hs hpl ht hnone (hreplaces hnone) rfl others⟩
  refine ⟨fun hs => ?_, fun i h hs => ?_, fun i h pl hs hpl => ?_, fun i h pl cause hs hpl => ?_,
    fun i h pl hs hpl => (settled i h pl hs hpl).2⟩
  · rw [perform_moveTo hp ht, exec_moveTo_of_none hs ht]
  · obtain ⟨pl, hpl, -⟩ := (sound.placed hp).slot hs
    exact ⟨pl, hpl⟩
  · rw [← Pool.unmovable?_eq_none_iff]
    cases hcause : pl.unmovable? tg with
    | none =>
      obtain ⟨k, s', hperform, -⟩ := (settled i h pl hs hpl).2 hcause
      simp [hperform]
    | some cause => simp [(settled i h pl hs hpl).1 cause hcause]
  · exact (settled i h pl hs hpl).1 cause

/-- **A particle moves to another pool with its values**, after every run of steps none of which
releases a slot by its bare handle, whatever slots were taken by hand and whatever views are
open. -/
theorem moves_run (steps : List (Step dim spacedim))
    (hsteps : ∀ step ∈ steps, step.isBareRelease = false) (key target : Nat)
    (p : Particle dim spacedim) (tg : Pool)
    (hp : (run ({} : Session dim spacedim) steps).2.particles.find? key = some p)
    (ht : (run ({} : Session dim spacedim) steps).2.world.pool? target = some tg) :
    (run ({} : Session dim spacedim) steps).2.Moves key p target tg :=
  (secure_reached hsteps).moves (sound_reached steps) hp ht

/-- Beside a slot taken by hand and with a read view open on its own pool, a particle moves to the
only slot of another pool. Within its own pool the same view is in its way. -/
theorem moves_run_of_viewed :
    let steps : List (Step 1 1) :=
      [.makePool { stride := 1 }, .makePool { stride := 1, maxSlots := some 1 }, .allocate 0 0,
        .make 0, .moveTo 0 0, .setValues 0 [⟨5⟩], .openView 0 0 (.kept 0) false]
    let s := (run {} steps).2
    ∃ p pl tg, s.particles.find? 0 = some p ∧ p.slot? = some (0, ⟨⟨1⟩, 1, 0⟩) ∧
      s.world.pool? 0 = some pl ∧ s.world.pool? 1 = some tg ∧ pl.unmovable? tg = none ∧
      pl.unmovable? pl = some (.pool .storageBorrowed) ∧ s.Moves 0 p 1 tg ∧ s.Moves 0 p 0 pl := by
  intro steps s
  exact ⟨_, _, _, rfl, rfl, rfl, rfl, rfl, rfl, moves_run steps (by decide) 0 1 _ _ rfl rfl,
    moves_run steps (by decide) 0 0 _ _ rfl rfl⟩

end Session

end ParticleStore
