/-
ParticleStore.Proofs.Session.CopyingOver — copying over a particle, in place and the plain way.

The plain way to overwrite a particle is to make a copy of the other one, store it under the
key and drop the particle that was there. Copying in place comes to the same session, but for
one case: both particles hold slots of one pool (`perform_copyFrom_of_apart`). Then the plain
way takes a new slot and releases the old one, and the other way writes to the slot that is
there. The particles look the same after both, but for the handle. The plain way may need a
larger table, and can be refused for want of room where the other one is done
(`Secure.copiesOver`).
-/
import ParticleStore.Proofs.Plain.Records
import ParticleStore.Proofs.Session.Tenure
import ParticleStore.Proofs.World.Replacing

namespace ParticleStore

open ParticleStore.Action Particle World StepM

variable {dim spacedim : Nat} {w w' : World} {s s₁ s₂ : Session dim spacedim}
  {key source i : Nat} {h k : Handle} {pl : Pool} {p q : Particle dim spacedim}

/-- Who writes in a pool through a view has a view open. -/
theorem Pool.written?_or_viewed? (pl : Pool) : pl.written?.or pl.viewed? = pl.viewed? := by
  unfold written? viewed?
  by_cases hwriters : 0 < pl.writers
  · have hopen : pl.isViewed = true := decide_eq_true (by omega)
    simp [hwriters, hopen]
  · simp [hwriters]

/-- The values of one slot are written to another one of the same pool. -/
theorem World.update_copied (wf : w.WellFormed) (hpl : w.pool? i = some pl)
    (hgood : pl.flawed? h = none) (hgood' : pl.flawed? k = none) (hview : pl.viewed? = none) :
    w.Update i k (w.contents i h)
      (w.setPool i (pl.withBlock k.index.toNat (pl.block h.index.toNat))) := by
  have wfp := wf.pool i pl hpl
  have hlen := Pool.length_block_of_flawed? wfp hgood
  rw [contents_of_pool hpl, Pool.contents_eq_block wfp hgood]
  exact update_setPool hpl (Pool.update_withBlock wfp (Pool.flawed?_eq_none_iff_contents.mp hgood')
    (Pool.viewed?_eq_none_iff.mp hview) hlen)

/-- A pool in which one slot has replaced another has as many live slots as one in which a slot has
been written to, and no smaller table. -/
theorem World.Replaces.pool_of_written {old new : Handle} {values written : List Scalar} {n j : Nat}
    {pl₁ : Pool} (replaces : w.Replaces (i, old) (i, new) values w') (hpl : w.pool? i = some pl)
    (hpl₁ : w'.pool? j = some pl₁) :
    ∃ pl₂, (w.setPool i (pl.withBlock n written)).pool? j = some pl₂ ∧ pl₂.live = pl₁.live ∧
      pl₂.totalSlots ≤ pl₁.totalSlots := by
  have hlt : j < w.pools.length := by
    rw [← replaces.evolves.length_eq]
    exact lt_of_pool? hpl₁
  obtain ⟨pl₀, hpl₀⟩ : ∃ pl₀, w.pool? j = some pl₀ := ⟨_, List.getElem?_eq_getElem hlt⟩
  obtain ⟨pl', hpl', -, -, -, -, hsize, -⟩ := replaces.evolves.pool j pl₀ hpl₀
  rw [hpl₁] at hpl'
  cases hpl'
  have hlive : pl₁.live = pl₀.live := Nat.add_right_cancel (replaces.live_add hpl₀ hpl₁)
  by_cases hj : j = i
  · subst hj
    rw [hpl] at hpl₀
    cases hpl₀
    exact ⟨_, pool?_setPool_self (by simp [hpl]), hlive.symm, hsize⟩
  · exact ⟨pl₀, (pool?_setPool_of_ne hj).trans hpl₀, hlive.symm, hsize⟩

namespace Particle

theorem worldWithout_of_live (hs : p.slot? = some (i, h)) (hlive : (w.contents i h).isSome) :
    p.worldWithout w = w.without i h := by
  obtain ⟨pl, hpl, hshown⟩ := exists_pool?_of_contents hlive
  simp only [worldWithout, hs, hpl, Option.bind_some, Pool.flawed?_eq_none_iff_contents.mpr hshown]

/-! ## What a copy shows -/

/-- A slot is filled with the values of another one. Then a particle that does not hold it, for its
slot was live before, is dropped. -/
theorem contents_copied (wf : w.WellFormed) (placed : p.Placed w)
    (hlive : ∀ slot ∈ p.slots, (w.contents slot.1 slot.2).isSome) (hpl : w.pool? i = some pl)
    (hgood : pl.flawed? h = none) (hfree : pl.viewed?.or pl.full? = none) :
    w.Evolves (p.worldWithout (w.setPool i (pl.filled (pl.block h.index.toNat)))) ∧
      (p.worldWithout (w.setPool i (pl.filled (pl.block h.index.toNat)))).contents i pl.nextHandle =
        w.contents i h := by
  have wfp := wf.pool i pl hpl
  rw [Option.or_eq_none_iff, Pool.viewed?_eq_none_iff, Pool.full?_eq_none_iff] at hfree
  have hlen := Pool.length_block_of_flawed? wfp hgood
  have u := update_setPool hpl (Pool.update_filled wfp hfree.1 hfree.2 hlen)
  have wf' := u.wellFormed wf
  have placed' := placed.evolves u.evolves
  have hout : (i, pl.nextHandle) ∉ p.slots := by
    intro hmem
    have hsome := hlive _ hmem
    rw [contents_of_pool hpl, Pool.contents_nextHandle wfp] at hsome
    cases hsome
  refine ⟨u.evolves.trans (trade_without [] wf' placed').evolves, ?_⟩
  calc (p.worldWithout (w.setPool i (pl.filled (pl.block h.index.toNat)))).contents i pl.nextHandle
      = (w.setPool i (pl.filled (pl.block h.index.toNat))).contents i pl.nextHandle :=
        contents_worldWithout wf' placed' hout
    _ = some (pl.block h.index.toNat) := u.contents_self
    _ = w.contents i h := by rw [contents_of_pool hpl, Pool.contents_eq_block wfp hgood]

theorem veiled_of_none (e : w.Evolves w') (hs : q.slot? = none) :
    ({ q with handle := .invalid }.snapshot w').veiled = (q.snapshot w).veiled := by
  have hs' : { q with handle := .invalid }.slot? = none := slot?_of_invalid rfl
  have hpool : { q with handle := .invalid }.poolId? w' = q.poolId? w := poolId?_of_evolves e rfl
  simp only [Snapshot.veiled, snapshot, hpool, hasProperties, hs', hs, propertyCount_of_none,
    byteWidth, values]

theorem veiled_of_slot (wf : w.WellFormed) (e : w.Evolves w') (hs : q.slot? = some (i, h))
    (hlive : (w.contents i h).isSome) (hk : k.isValid = true)
    (hsame : w'.contents i k = w.contents i h) :
    ({ q with handle := k }.snapshot w').veiled = (q.snapshot w).veiled := by
  have hs' : { q with handle := k }.slot? = some (i, k) :=
    slot?_eq_some_iff.mpr ⟨(slot?_eq_some_iff.mp hs).1, rfl, hk⟩
  have hpool : { q with handle := k }.poolId? w' = q.poolId? w := poolId?_of_evolves e rfl
  have hvalues : { q with handle := k }.values w' = q.values w :=
    values_of_evolves wf e hs hs' hlive hsame
  have hcount : { q with handle := k }.propertyCount w' = q.propertyCount w := by
    rw [propertyCount_of_evolves e, propertyCount, hs', propertyCount, hs]
  simp only [Snapshot.veiled, snapshot, hpool, hasProperties, hs', hs, hcount, byteWidth, hvalues,
    Option.isSome_some]

end Particle

namespace Session

/-! ## The two ways -/

/-- The way in place: the particle keeps its slot, if that one will do. -/
theorem perform_copyFrom (hp : s.particles.find? key = some p)
    (hq : s.particles.find? source = some q) :
    s.perform (.copyFrom key source) =
      match (p.copyFrom q).exec s.world with
      | (.ok c, w) => (.done, { s with world := w, particles := s.particles.insert key c })
      | (.error failure, w) => (.failed failure, { s with world := w }) := by
  rw [perform_eq]
  simp only [ofStep]
  rw [exec_particle_of_some hq]
  exact finish_revise hp

section Ways

variable (sound : s.Sound False) (hp : s.particles.find? key = some p)
  (hq : s.particles.find? source = some q)

include sound hp hq

/-- The plain way: the copy is stored, and the particle that was there is dropped. -/
theorem perform_copy :
    s.perform (.copy source key) =
      match q.copy.exec s.world with
      | (.ok c, w) =>
        (.done, { s with world := p.worldWithout w, particles := s.particles.insert key c })
      | (.error failure, w) => (.failed failure, { s with world := w }) := by
  rw [perform_eq]
  simp only [ofStep, StepM.copy]
  rw [exec_particle_of_some hq, exec_actOnParticle_bind]
  obtain ⟨cause, c, w', hexec, hmade⟩ := copy_settles sound.wellFormed (sound.placed hq)
  rw [hexec]
  cases cause with
  | some e => rfl
  | none =>
    have hstore := exec_store_of_tenancy (s := { s with world := w' }) (p := c) key
      (sound.2.born (hmade rfl)) (List.subset_cons_self _ _)
    simp only [decided]
    rw [StepM.exec_bind, hstore]
    simp only [stored, hp]
    rfl

/-- **Both ways are one**, unless both particles hold slots of one pool. -/
theorem perform_copyFrom_of_apart (hapart : ∀ i h k, q.slot? = some (i, h) → p.slot? ≠ some (i, k)) :
    s.perform (.copyFrom key source) = s.perform (.copy source key) := by
  have wf := sound.wellFormed
  rw [perform_copy sound hp hq, perform_copyFrom hp hq]
  cases hs : q.slot? with
  | none => rw [exec_copyFrom_of_none wf (sound.placed hp) hs, exec_copy_of_none hs]
  | some slot =>
    obtain ⟨i, h⟩ := slot
    obtain ⟨pl, hpl, -⟩ := (sound.placed hq).slot hs
    rw [exec_copyFrom_across wf (sound.placed hp) hs (fun k => hapart i h k hs) hpl,
      exec_copy hs hpl (wf.pool i pl hpl)]
    cases (pl.viewed?.or ((pl.flawed? h).or pl.full?)).map ParticleError.pool <;> rfl

end Ways

/-- The session `s₂`, where a particle has been overwritten in place, agrees with the session `s₁`,
where that has been done the plain way. -/
structure AgreesWithPlain (key : Nat) (s₁ s₂ : Session dim spacedim) : Prop where
  /-- The particle shows the same in both, but for its handle. -/
  same : (s₂.snapshot? key).map Snapshot.veiled = (s₁.snapshot? key).map Snapshot.veiled
  length_eq : s₂.world.pools.length = s₁.world.pools.length
  /-- As many slots are live in each pool, and no table is larger. -/
  pools : ∀ i pl₁, s₁.world.pool? i = some pl₁ →
    ∃ pl₂, s₂.world.pool? i = some pl₂ ∧ pl₂.live = pl₁.live ∧ pl₂.totalSlots ≤ pl₁.totalSlots

section Copied

variable (sound : s.Sound False) (secure : s.Secure) (hp : s.particles.find? key = some p)
  (hq : s.particles.find? source = some q)

include sound secure hp hq

/-- A copy stored the plain way shows what the other particle shows. -/
theorem veiled_of_copy (hdone : s.perform (.copy source key) = (.done, s₁)) :
    (s₁.snapshot? key).map Snapshot.veiled = (s.snapshot? source).map Snapshot.veiled := by
  have wf := sound.wellFormed
  have placed := sound.placed hp
  rw [perform_copy sound hp hq] at hdone
  cases hs : q.slot? with
  | none =>
    rw [exec_copy_of_none hs] at hdone
    obtain rfl := (Prod.mk.inj hdone).2
    have e := (trade_without [] wf placed).evolves
    simp only [snapshot?, Registry.find?_insert_self, hq, Option.map_some, veiled_of_none e hs]
  | some slot =>
    obtain ⟨i, h⟩ := slot
    obtain ⟨pl, hpl, -⟩ := (sound.placed hq).slot hs
    have wfp := wf.pool i pl hpl
    have hlive := secure.isSome_contents_of_slot hq hs
    have hgood := secure.flawed?_eq_none hq hs hpl
    rw [exec_copy hs hpl wfp, hgood, Option.none_or] at hdone
    cases hcause : pl.viewed?.or pl.full? with
    | some cause =>
      rw [hcause] at hdone
      cases (Prod.mk.inj hdone).1
    | none =>
      rw [hcause] at hdone
      obtain rfl := (Prod.mk.inj hdone).2
      obtain ⟨e, hsame⟩ := contents_copied wf placed (secure.isSome_contents hp) hpl hgood hcause
      have hvalid : pl.nextHandle.isValid = true := wfp.isValid_of_pool rfl
      simp only [snapshot?, Registry.find?_insert_self, hq, Option.map_some,
        veiled_of_slot wf e hs hlive hvalid hsame]

variable (hs : q.slot? = some (i, h)) (hk : p.slot? = some (i, k))
  (hpl : s.world.pool? i = some pl)

include hs hk hpl

/-- Where both particles hold slots of one pool, the plain way takes a new slot and releases the
old one. -/
theorem perform_copy_within :
    s.perform (.copy source key) =
      match pl.viewed?.or pl.full? with
      | some cause => (.failed (.refused (.pool cause)), s)
      | none => (.done, { s with
        world := (s.world.setPool i (pl.filled (pl.block h.index.toNat))).without i k
        particles := s.particles.insert key { q with handle := pl.nextHandle } }) := by
  have wfp := sound.wellFormed.pool i pl hpl
  have hgood := secure.flawed?_eq_none hq hs hpl
  rw [perform_copy sound hp hq, exec_copy hs hpl wfp, hgood, Option.none_or]
  cases hcause : pl.viewed?.or pl.full? with
  | some cause => rfl
  | none =>
    rw [Option.or_eq_none_iff, Pool.viewed?_eq_none_iff, Pool.full?_eq_none_iff] at hcause
    have hlen := Pool.length_block_of_flawed? wfp hgood
    have hlive := secure.isSome_contents_of_slot hp hk
    have hkept := contents_setPool_filled sound.wellFormed hpl hcause.1 hcause.2 hlen hlive
    simp only [Option.map_none, decided, worldWithout_of_live hk (hkept ▸ hlive)]

/-- The way in place writes to the slot that is there. -/
theorem perform_copyFrom_within :
    s.perform (.copyFrom key source) =
      match pl.viewed? with
      | some cause => (.failed (.refused (.pool cause)), s)
      | none => (.done, { s with
        world := s.world.setPool i (pl.withBlock k.index.toNat (pl.block h.index.toNat))
        particles := s.particles.insert key { q with handle := k } }) := by
  have wfp := sound.wellFormed.pool i pl hpl
  have hgood := secure.flawed?_eq_none hq hs hpl
  have hgood' := secure.flawed?_eq_none hp hk hpl
  rw [perform_copyFrom hp hq, exec_copyFrom_within hs hk hpl wfp, hgood, hgood', Option.none_or,
    Option.none_or, ← Option.map_or, Pool.written?_or_viewed?]
  cases pl.viewed? <;> rfl

theorem veiled_of_copyFrom_within (hdone : s.perform (.copyFrom key source) = (.done, s₂)) :
    (s₂.snapshot? key).map Snapshot.veiled = (s.snapshot? source).map Snapshot.veiled := by
  have wf := sound.wellFormed
  have hgood := secure.flawed?_eq_none hq hs hpl
  have hgood' := secure.flawed?_eq_none hp hk hpl
  have hlive := secure.isSome_contents_of_slot hq hs
  rw [perform_copyFrom_within sound secure hp hq hs hk hpl] at hdone
  cases hview : pl.viewed? with
  | some cause =>
    rw [hview] at hdone
    cases (Prod.mk.inj hdone).1
  | none =>
    rw [hview] at hdone
    obtain rfl := (Prod.mk.inj hdone).2
    have u := update_copied wf hpl hgood hgood' hview
    have hvalid := (slot?_eq_some_iff.mp hk).2.2
    simp only [snapshot?, hq, Registry.find?_insert_self, Option.map_some,
      veiled_of_slot wf u.evolves hs hlive hvalid u.contents_self]

/-- What the way in place writes is what the plain way stores. -/
theorem agreesWithPlain_within (hdone : s.perform (.copy source key) = (.done, s₁)) :
    ∃ s₂, s.perform (.copyFrom key source) = (.done, s₂) ∧ AgreesWithPlain key s₁ s₂ := by
  have wf := sound.wellFormed
  have hgood := secure.flawed?_eq_none hq hs hpl
  have hgood' := secure.flawed?_eq_none hp hk hpl
  have hlive := secure.isSome_contents_of_slot hp hk
  have hplain := perform_copy_within sound secure hp hq hs hk hpl
  have hinplace := perform_copyFrom_within sound secure hp hq hs hk hpl
  rw [hdone] at hplain
  cases hcause : pl.viewed?.or pl.full? with
  | some cause =>
    rw [hcause] at hplain
    cases (Prod.mk.inj hplain).1
  | none =>
    rw [hcause] at hplain
    have hs₁ := (Prod.mk.inj hplain).2
    have hview := (Option.or_eq_none_iff.mp hcause).1
    rw [hview] at hinplace
    have hlen := Pool.length_block_of_flawed? (wf.pool i pl hpl) hgood
    have replaces := replaces_filled wf hlive hpl hcause hlen
    have u := update_copied wf hpl hgood hgood' hview
    have copied := veiled_of_copyFrom_within sound secure hp hq hs hk hpl hinplace
    have plain := veiled_of_copy sound secure hp hq hdone
    refine ⟨_, hinplace, copied.trans plain.symm, ?_, fun j pl₁ hpl₁ => ?_⟩
    · rw [hs₁]
      exact u.evolves.length_eq.trans replaces.evolves.length_eq.symm
    · rw [hs₁] at hpl₁
      exact replaces.pool_of_written hpl hpl₁

end Copied

/-! ## Agreement -/

/-- What comes of copying the particle `q` under the key `source` over the particle `p` under
another key. -/
structure CopiesOver (s : Session dim spacedim) (key source : Nat) (p q : Particle dim spacedim) :
    Prop where
  /-- The plain way needs a free slot, unless the particle copied holds none. -/
  plain_done_iff : (s.perform (.copy source key)).1 = .done ↔ ∀ i h pl, q.slot? = some (i, h) →
    s.world.pool? i = some pl → pl.isViewed = false ∧ pl.live < pl.config.slotLimit
  /-- The way in place can do with a slot of the same pool. -/
  done_iff : (s.perform (.copyFrom key source)).1 = .done ↔ ∀ i h pl, q.slot? = some (i, h) →
    s.world.pool? i = some pl →
      pl.isViewed = false ∧ (pl.live < pl.config.slotLimit ∨ ∃ k, p.slot? = some (i, k))
  /-- The particle shows what the one copied has shown, but for its handle. -/
  copied : ∀ s₂, s.perform (.copyFrom key source) = (.done, s₂) →
    (s₂.snapshot? key).map Snapshot.veiled = (s.snapshot? source).map Snapshot.veiled
  /-- Every other particle, and so the one copied, looks as it did. -/
  others : s.SparesOthers key (s.perform (.copyFrom key source)).2
  /-- Where the plain way is done, so is the one in place, and both agree. -/
  agrees : ∀ s₁, s.perform (.copy source key) = (.done, s₁) →
    ∃ s₂, s.perform (.copyFrom key source) = (.done, s₂) ∧ AgreesWithPlain key s₁ s₂
  /-- Whatever happens later, nothing done to the one particle shows in the other. -/
  apart : ∀ later step, (∀ earlier ∈ later, earlier.isBareRelease = false) →
    step.isOn key = true →
      ((((s.perform (.copyFrom key source)).2.run later).2.perform step).2.snapshot? source =
        ((s.perform (.copyFrom key source)).2.run later).2.snapshot? source)
  /-- Nor do both ever hold one slot, through which one could write to the other. -/
  disjoint : ∀ later p' q', (∀ earlier ∈ later, earlier.isBareRelease = false) →
    ((s.perform (.copyFrom key source)).2.run later).2.particles.find? key = some p' →
    ((s.perform (.copyFrom key source)).2.run later).2.particles.find? source = some q' →
      p'.slots.Disjoint q'.slots
  /-- Where only the way in place is done, both particles hold slots of a pool at its limit. -/
  only_full : (s.perform (.copyFrom key source)).1 = .done →
    (s.perform (.copy source key)).1 ≠ .done → ∃ i h k pl, q.slot? = some (i, h) ∧
      p.slot? = some (i, k) ∧ s.world.pool? i = some pl ∧ pl.live = pl.config.slotLimit

theorem Secure.veiled_of_copyFrom (secure : s.Secure) (sound : s.Sound False)
    (hp : s.particles.find? key = some p) (hq : s.particles.find? source = some q)
    (hdone : s.perform (.copyFrom key source) = (.done, s₂)) :
    (s₂.snapshot? key).map Snapshot.veiled = (s.snapshot? source).map Snapshot.veiled := by
  by_cases hwithin : ∃ i h k, q.slot? = some (i, h) ∧ p.slot? = some (i, k)
  · obtain ⟨i, h, k, hs, hk⟩ := hwithin
    obtain ⟨pl, hpl, -⟩ := (sound.placed hq).slot hs
    exact veiled_of_copyFrom_within sound secure hp hq hs hk hpl hdone
  · have hsame := perform_copyFrom_of_apart sound hp hq fun i h k hs hk => hwithin ⟨i, h, k, hs, hk⟩
    exact veiled_of_copy sound secure hp hq (hsame ▸ hdone)

/-- The copy in place is done wherever the plain way is. -/
theorem Secure.agreesWithPlain (secure : s.Secure) (sound : s.Sound False)
    (hp : s.particles.find? key = some p) (hq : s.particles.find? source = some q)
    (hdone : s.perform (.copy source key) = (.done, s₁)) :
    ∃ s₂, s.perform (.copyFrom key source) = (.done, s₂) ∧ AgreesWithPlain key s₁ s₂ := by
  by_cases hwithin : ∃ i h k, q.slot? = some (i, h) ∧ p.slot? = some (i, k)
  · obtain ⟨i, h, k, hs, hk⟩ := hwithin
    obtain ⟨pl, hpl, -⟩ := (sound.placed hq).slot hs
    exact agreesWithPlain_within sound secure hp hq hs hk hpl hdone
  · have hsame := perform_copyFrom_of_apart sound hp hq fun i h k hs hk => hwithin ⟨i, h, k, hs, hk⟩
    exact ⟨s₁, hsame.trans hdone, rfl, rfl, fun i pl₁ hpl₁ => ⟨pl₁, hpl₁, rfl, Nat.le_refl _⟩⟩

theorem Secure.copy_done_iff (secure : s.Secure) (sound : s.Sound False)
    (hp : s.particles.find? key = some p) (hq : s.particles.find? source = some q) :
    (s.perform (.copy source key)).1 = .done ↔ ∀ i h pl, q.slot? = some (i, h) →
      s.world.pool? i = some pl → pl.isViewed = false ∧ pl.live < pl.config.slotLimit := by
  rw [perform_copy sound hp hq]
  cases hs : q.slot? with
  | none => simp [exec_copy_of_none hs]
  | some slot =>
    obtain ⟨i, h⟩ := slot
    obtain ⟨pl, hpl, -⟩ := (sound.placed hq).slot hs
    have hgood := secure.flawed?_eq_none hq hs hpl
    rw [exec_copy hs hpl (sound.wellFormed.pool i pl hpl), hgood, Option.none_or]
    constructor
    · intro hdone i' h' pl' hs' hpl'
      cases hs'
      rw [hpl] at hpl'
      cases hpl'
      rw [← Pool.viewed?_eq_none_iff, ← Pool.full?_eq_none_iff, ← Option.or_eq_none_iff]
      cases hcause : pl.viewed?.or pl.full? with
      | none => rfl
      | some cause =>
        rw [hcause] at hdone
        cases hdone
    · intro hall
      obtain ⟨hview, hroom⟩ := hall i h pl rfl hpl
      rw [Pool.viewed?_eq_none_iff.mpr hview, Pool.full?_eq_none_iff.mpr hroom]
      rfl

theorem Secure.copyFrom_done_iff (secure : s.Secure) (sound : s.Sound False)
    (hp : s.particles.find? key = some p) (hq : s.particles.find? source = some q) :
    (s.perform (.copyFrom key source)).1 = .done ↔ ∀ i h pl, q.slot? = some (i, h) →
      s.world.pool? i = some pl →
        pl.isViewed = false ∧ (pl.live < pl.config.slotLimit ∨ ∃ k, p.slot? = some (i, k)) := by
  by_cases hwithin : ∃ i h k, q.slot? = some (i, h) ∧ p.slot? = some (i, k)
  · obtain ⟨i, h, k, hs, hk⟩ := hwithin
    obtain ⟨pl, hpl, -⟩ := (sound.placed hq).slot hs
    rw [perform_copyFrom_within sound secure hp hq hs hk hpl]
    constructor
    · intro hdone i' h' pl' hs' hpl'
      rw [hs] at hs'
      cases hs'
      rw [hpl] at hpl'
      cases hpl'
      refine ⟨?_, .inr ⟨k, hk⟩⟩
      cases hview : pl.viewed? with
      | none => exact Pool.viewed?_eq_none_iff.mp hview
      | some cause =>
        rw [hview] at hdone
        cases hdone
    · intro hall
      rw [Pool.viewed?_eq_none_iff.mpr (hall i h pl hs hpl).1]
  · rw [perform_copyFrom_of_apart sound hp hq fun i h k hs hk => hwithin ⟨i, h, k, hs, hk⟩,
      secure.copy_done_iff sound hp hq]
    refine forall_congr' fun i => forall_congr' fun h => forall_congr' fun pl =>
      imp_congr_right fun hs => imp_congr_right fun _ => and_congr_right fun _ => ?_
    exact (or_iff_left fun ⟨k, hk⟩ => hwithin ⟨i, h, k, hs, hk⟩).symm

/-- The plain way alone needs a free slot. -/
theorem Secure.full_of_copyFrom (secure : s.Secure) (sound : s.Sound False)
    (hp : s.particles.find? key = some p) (hq : s.particles.find? source = some q)
    (hdone : (s.perform (.copyFrom key source)).1 = .done)
    (hplain : (s.perform (.copy source key)).1 ≠ .done) :
    ∃ i h k pl, q.slot? = some (i, h) ∧ p.slot? = some (i, k) ∧ s.world.pool? i = some pl ∧
      pl.live = pl.config.slotLimit := by
  rw [secure.copyFrom_done_iff sound hp hq] at hdone
  rw [Ne, secure.copy_done_iff sound hp hq] at hplain
  simp only [not_forall] at hplain
  obtain ⟨i, h, pl, hs, hpl, hfull⟩ := hplain
  obtain ⟨hview, hroom⟩ := hdone i h pl hs hpl
  have hlimit : ¬ pl.live < pl.config.slotLimit := fun hlt => hfull ⟨hview, hlt⟩
  obtain ⟨k, hk⟩ := hroom.resolve_left hlimit
  have wfp := sound.wellFormed.pool i pl hpl
  have hle := wfp.live_le_slotLimit
  exact ⟨i, h, k, pl, hs, hk, hpl, Nat.le_antisymm hle (Nat.not_lt.mp hlimit)⟩

theorem Secure.copiesOver (secure : s.Secure) (sound : s.Sound False) (hne : source ≠ key)
    (hp : s.particles.find? key = some p) (hq : s.particles.find? source = some q) :
    s.CopiesOver key source p q := by
  have secure₂ : (s.perform (.copyFrom key source)).2.Secure := secure.perform sound rfl
  have sound₂ : (s.perform (.copyFrom key source)).2.Sound False := sound.perform _
  refine ⟨secure.copy_done_iff sound hp hq, secure.copyFrom_done_iff sound hp hq,
    fun s₂ => secure.veiled_of_copyFrom sound hp hq, secure.others sound (beq_self_eq_true key),
    fun s₁ => secure.agreesWithPlain sound hp hq, ?_, ?_, secure.full_of_copyFrom sound hp hq⟩
  · intro later step hlater hstep
    exact (secure₂.run sound₂ hlater).others (sound₂.run later) hstep source hne
  · intro later p' q' hlater hp' hq'
    exact (secure₂.run sound₂ hlater).disjoint (sound₂.run later) hne hp' hq'

/-- **Copying over a particle in place agrees with the plain way**, after every run of steps none
of which releases a slot by its bare handle. -/
theorem copiesOver_run (steps : List (Step dim spacedim))
    (hsteps : ∀ step ∈ steps, step.isBareRelease = false) (key source : Nat) (hne : source ≠ key)
    (p q : Particle dim spacedim)
    (hp : (run ({} : Session dim spacedim) steps).2.particles.find? key = some p)
    (hq : (run ({} : Session dim spacedim) steps).2.particles.find? source = some q) :
    (run ({} : Session dim spacedim) steps).2.CopiesOver key source p q :=
  (secure_reached hsteps).copiesOver (sound_reached steps) hne hp hq

/-- The plain way is done for two particles of a pool that has one free slot. Once a slot was taken
by hand, there is none left, and only the way in place is done. -/
theorem copiesOver_run_of_full :
    let steps : List (Step 1 1) :=
      [.makePool { stride := 1, maxSlots := some 3 }, .make 0, .moveTo 0 0, .setValues 0 [⟨5⟩],
        .make 1, .moveTo 1 0, .setValues 1 [⟨7⟩]]
    let s := (run {} steps).2
    let t := (run {} (steps ++ [.allocate 0 0])).2
    ∃ p q, s.particles.find? 0 = some p ∧ s.particles.find? 1 = some q ∧
      t.particles.find? 0 = some p ∧ t.particles.find? 1 = some q ∧
      (s.perform (.copy 1 0)).1 = .done ∧
      (t.perform (.copy 1 0)).1 = .failed (.refused (.pool (.outOfResources 4 3))) ∧
      (t.perform (.copyFrom 0 1)).1 = .done ∧ s.CopiesOver 0 1 p q ∧ t.CopiesOver 0 1 p q := by
  intro steps s t
  exact ⟨_, _, rfl, rfl, rfl, rfl, rfl, rfl, rfl,
    copiesOver_run steps (by decide) 0 1 (by decide) _ _ rfl rfl,
    copiesOver_run (steps ++ [.allocate 0 0]) (by decide) 0 1 (by decide) _ _ rfl rfl⟩

end Session

end ParticleStore
