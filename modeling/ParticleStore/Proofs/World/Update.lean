/-
ParticleStore.Proofs.World.Update — pools side by side.

The pools of a well-formed world have ids of their own, so a handle names a slot of
at most one of them. `contents w i h` is what the handle `h` shows of the pool at
position `i`. An operation on one pool is an `Update` of the world: one handle of
one pool shows something else, and every other handle of every pool what it showed
before. `Evolves` is the part that all operations on particles share: pools stay
where they are, with their ids, configurations and open views, and no table shrinks.
-/
import ParticleStore.World
import ParticleStore.Proofs.Pool.Contents

namespace ParticleStore.World

variable {w w' w'' : World} {i j : Nat} {p p' : Pool} {h k : Handle}
  {entry : Option (List Scalar)}

/-! ## Pools at positions -/

theorem pool?_setPool_self (hp : (w.pool? i).isSome) : (w.setPool i p).pool? i = some p := by
  obtain ⟨q, hq⟩ := Option.isSome_iff_exists.mp hp
  obtain ⟨hlt, -⟩ := List.getElem?_eq_some_iff.mp hq
  exact List.getElem?_set_self hlt

theorem pool?_setPool_of_ne (hne : j ≠ i) : (w.setPool i p).pool? j = w.pool? j :=
  List.getElem?_set_ne (Ne.symm hne)

/-- As many pools stand at as many positions. -/
theorem exists_pool? (hlength : w'.pools.length = w.pools.length) (hp : w'.pool? i = some p) :
    ∃ q, w.pool? i = some q := by
  have hlt : i < w.pools.length := by
    rw [← hlength]
    exact (List.getElem?_eq_some_iff.mp hp).1
  exact ⟨w.pools[i], List.getElem?_eq_getElem hlt⟩

theorem setPool_setPool : (w.setPool i p).setPool i p' = w.setPool i p' := by
  simp [setPool, List.set_set]

/-- Every pool is well-formed, and the ids are distinct and below the next one. -/
structure WellFormed (w : World) : Prop where
  pool : ∀ i p, w.pool? i = some p → p.WellFormed
  id_inj : ∀ i j p q, w.pool? i = some p → w.pool? j = some q → p.id = q.id → i = j
  id_lt : ∀ i p, w.pool? i = some p → p.id.number < w.nextId
  nextId_pos : 0 < w.nextId

/-- The world without pools. -/
theorem wellFormed_empty : ({} : World).WellFormed where
  pool := by simp [pool?]
  id_inj := by simp [pool?]
  id_lt := by simp [pool?]
  nextId_pos := Nat.one_pos

namespace WellFormed

/-- Events are no matter of well-formedness. -/
theorem of_pools (wf : w.WellFormed) (hpools : w'.pools = w.pools) (hnext : w'.nextId = w.nextId) :
    w'.WellFormed := by
  have hsame : ∀ i, w'.pool? i = w.pool? i := fun i => by rw [pool?, hpools, pool?]
  refine ⟨?_, ?_, ?_, hnext ▸ wf.nextId_pos⟩
  · simpa only [hsame] using wf.pool
  · simpa only [hsame] using wf.id_inj
  · simpa only [hsame, hnext] using wf.id_lt

/-- A pool may change into any other well-formed one with its id. -/
theorem setPool (wf : w.WellFormed) (hp : w.pool? i = some p) (wfp : p'.WellFormed)
    (hid : p'.id = p.id) : (w.setPool i p').WellFormed := by
  have hself : (w.setPool i p').pool? i = some p' := pool?_setPool_self (by simp [hp])
  have hold : ∀ j q', (w.setPool i p').pool? j = some q' →
      ∃ q, w.pool? j = some q ∧ q'.id = q.id ∧ q'.WellFormed := by
    intro j q' hq'
    by_cases hj : j = i
    · subst hj
      rw [hself] at hq'
      cases hq'
      exact ⟨p, hp, hid, wfp⟩
    · rw [pool?_setPool_of_ne hj] at hq'
      exact ⟨q', hq', rfl, wf.pool j q' hq'⟩
  refine ⟨fun j q' hq' => ?_, fun j₁ j₂ q₁ q₂ hq₁ hq₂ heq => ?_, fun j q' hq' => ?_, wf.nextId_pos⟩
  · obtain ⟨q, -, -, wfq⟩ := hold j q' hq'
    exact wfq
  · obtain ⟨r₁, hr₁, hid₁, -⟩ := hold j₁ q₁ hq₁
    obtain ⟨r₂, hr₂, hid₂, -⟩ := hold j₂ q₂ hq₂
    exact wf.id_inj j₁ j₂ r₁ r₂ hr₁ hr₂ (by rw [← hid₁, heq, hid₂])
  · obtain ⟨q, hq, hid', -⟩ := hold j q' hq'
    rw [hid']
    exact wf.id_lt j q hq

end WellFormed

/-- What a handle shows of the pool at a position. -/
def contents (w : World) (i : Nat) (h : Handle) : Option (List Scalar) :=
  (w.pool? i).bind fun p => p.contents h

theorem contents_of_pool (hp : w.pool? i = some p) : w.contents i h = p.contents h := by
  rw [contents, hp]
  rfl

/-- A handle is good in a pool just if it shows something there. -/
theorem flawed?_eq_none_iff (hp : w.pool? i = some p) :
    p.flawed? h = none ↔ (w.contents i h).isSome := by
  rw [contents_of_pool hp, Pool.flawed?_eq_none_iff_contents]

/-! ## What stays when particles are worked on -/

/-- Pools stay, with their ids, configurations, open views and the scalars that these show,
and no table shrinks. -/
structure Evolves (w w' : World) : Prop where
  wellFormed : w.WellFormed → w'.WellFormed
  length_eq : w'.pools.length = w.pools.length
  nextId_eq : w'.nextId = w.nextId
  pool : ∀ i p, w.pool? i = some p → ∃ p', w'.pool? i = some p' ∧ p'.id = p.id ∧
    p'.config = p.config ∧ p'.readers = p.readers ∧ p'.writers = p.writers ∧
    p.totalSlots ≤ p'.totalSlots ∧ (p.isViewed = true → p'.scalars = p.scalars)

theorem Evolves.refl (w : World) : w.Evolves w :=
  ⟨id, rfl, rfl, fun _ p hp => ⟨p, hp, rfl, rfl, rfl, rfl, Nat.le_refl _, fun _ => rfl⟩⟩

theorem Evolves.trans (e : w.Evolves w') (e' : w'.Evolves w'') : w.Evolves w'' where
  wellFormed wf := e'.wellFormed (e.wellFormed wf)
  length_eq := e'.length_eq.trans e.length_eq
  nextId_eq := e'.nextId_eq.trans e.nextId_eq
  pool i p hp := by
    obtain ⟨p₁, hp₁, hid, hconfig, hreaders, hwriters, htotal, hscalars⟩ := e.pool i p hp
    obtain ⟨p₂, hp₂, hid', hconfig', hreaders', hwriters', htotal', hscalars'⟩ := e'.pool i p₁ hp₁
    refine ⟨p₂, hp₂, hid'.trans hid, hconfig'.trans hconfig, hreaders'.trans hreaders,
      hwriters'.trans hwriters, Nat.le_trans htotal htotal', fun hviewed => ?_⟩
    have hviewed' : p₁.isViewed = true := by rwa [Pool.isViewed, hreaders, hwriters]
    exact (hscalars' hviewed').trans (hscalars hviewed)

/-- Events are no part of what evolves. -/
theorem Evolves.of_pools (hpools : w'.pools = w.pools) (hnext : w'.nextId = w.nextId) :
    w.Evolves w' := by
  refine ⟨fun wf => wf.of_pools hpools hnext, by rw [hpools], hnext, fun i p hp => ?_⟩
  exact ⟨p, by rw [pool?, hpools]; exact hp, rfl, rfl, rfl, rfl, Nat.le_refl _, fun _ => rfl⟩

/-! ## Updates -/

/-- The world `w'` is `w` with one entry of one pool changed. No warning is noted. -/
structure Update (w : World) (i : Nat) (h : Handle) (entry : Option (List Scalar)) (w' : World) :
    Prop where
  pool : ∃ p p', w.pool? i = some p ∧ p.Update h entry p' ∧ w'.pools = w.pools.set i p'
  nextId_eq : w'.nextId = w.nextId
  quiet : ∀ e ∈ w'.events, e ∈ w.events ∨ e.level ≠ .warn

theorem update_setPool (hp : w.pool? i = some p) (u : p.Update h entry p') :
    w.Update i h entry (w.setPool i p') :=
  ⟨⟨p, p', hp, u, rfl⟩, rfl, fun _ he => .inl he⟩

namespace Update

theorem pool?_self (u : w.Update i h entry w') :
    ∃ p p', w.pool? i = some p ∧ w'.pool? i = some p' ∧ p.Update h entry p' := by
  obtain ⟨p, p', hp, u', hpools⟩ := u.pool
  obtain ⟨hlt, -⟩ := List.getElem?_eq_some_iff.mp hp
  exact ⟨p, p', hp, by rw [pool?, hpools, List.getElem?_set_self hlt], u'⟩

theorem pool?_of_ne (u : w.Update i h entry w') (hne : j ≠ i) : w'.pool? j = w.pool? j := by
  obtain ⟨p, p', -, -, hpools⟩ := u.pool
  rw [pool?, hpools, List.getElem?_set_ne (Ne.symm hne), pool?]

theorem contents_self (u : w.Update i h entry w') : w'.contents i h = entry := by
  obtain ⟨p, p', -, hp', u'⟩ := u.pool?_self
  rw [contents_of_pool hp', u'.contents_self]

/-- Another handle, or another pool, shows what it showed before. -/
theorem contents_of_ne (u : w.Update i h entry w') (hne : ¬ (j = i ∧ k = h)) :
    w'.contents j k = w.contents j k := by
  by_cases hj : j = i
  · subst hj
    obtain ⟨p, p', hp, hp', u'⟩ := u.pool?_self
    rw [contents_of_pool hp', contents_of_pool hp, u'.contents_of_ne fun hk => hne ⟨rfl, hk⟩]
  · rw [contents, u.pool?_of_ne hj, contents]

theorem wellFormed (u : w.Update i h entry w') (wf : w.WellFormed) : w'.WellFormed := by
  obtain ⟨p, p', hp, u', hpools⟩ := u.pool
  exact (wf.setPool hp u'.wellFormed u'.id_eq).of_pools hpools u.nextId_eq

theorem evolves (u : w.Update i h entry w') : w.Evolves w' := by
  obtain ⟨p, p', hp, hp', u'⟩ := u.pool?_self
  refine ⟨u.wellFormed, ?_, u.nextId_eq, fun j q hq => ?_⟩
  · obtain ⟨_, _, -, -, hpools⟩ := u.pool
    rw [hpools, List.length_set]
  · by_cases hj : j = i
    · subst hj
      rw [hp] at hq
      cases hq
      exact ⟨p', hp', u'.id_eq, u'.config_eq, u'.readers_eq, u'.writers_eq, u'.totalSlots_le,
        u'.scalars_eq⟩
    · exact ⟨q, (u.pool?_of_ne hj).trans hq, rfl, rfl, rfl, rfl, Nat.le_refl _, fun _ => rfl⟩

end Update

/-! ## Taking and releasing -/

/-- What is shown through a handle that shows something stays when a slot is taken. -/
theorem contents_setPool_filled {values : List Scalar} (wf : w.WellFormed) (hp : w.pool? i = some p)
    (hview : p.isViewed = false) (hroom : p.live < p.config.slotLimit)
    (hv : values.length = p.stride) (hsome : (w.contents j k).isSome) :
    (w.setPool i (p.filled values)).contents j k = w.contents j k := by
  have wfp := wf.pool i p hp
  have u := update_setPool hp (Pool.update_filled wfp hview hroom hv)
  refine u.contents_of_ne ?_
  rintro ⟨rfl, rfl⟩
  rw [contents_of_pool hp, Pool.contents_nextHandle wfp] at hsome
  cases hsome

/-- The world with a slot of the pool at a position released. -/
def without (w : World) (i : Nat) (h : Handle) : World :=
  match w.pool? i with
  | some p => w.setPool i (p.released h)
  | none => w

theorem without_eq (hp : w.pool? i = some p) : w.without i h = w.setPool i (p.released h) := by
  rw [without, hp]

@[simp] theorem without_events : (w.without i h).events = w.events := by
  unfold without
  split <;> rfl

theorem update_without (wf : w.WellFormed) (hsome : (w.contents i h).isSome) :
    w.Update i h none (w.without i h) := by
  cases hp : w.pool? i with
  | none =>
    rw [contents, hp] at hsome
    cases hsome
  | some p =>
    rw [contents_of_pool hp] at hsome
    rw [without_eq hp]
    exact update_setPool hp (Pool.update_released (wf.pool i p hp) hsome)

/-! ## Making pools -/

/-- Reserving changes one pool and notes no warning. -/
theorem reserve_eq (hp : w.pool? i = some p) (n : Nat) :
    ∃ events : List Event, (∀ e ∈ events, e.level ≠ .warn) ∧
      w.reserve i n = { w.setPool i (p.reserve n) with events := w.events ++ events } := by
  unfold reserve
  rw [hp]
  cases hr : p.reservation n with
  | idle => exact ⟨[], by simp, by simp [hr]⟩
  | made slots => exact ⟨[.slotsReserved p.id slots], by simp [Event.level], by simp [hr]⟩
  | skipped slots => exact ⟨[.reservationSkipped p.id slots], by simp [Event.level], by simp [hr]⟩

/-- A pool as it is made. -/
def newPool (w : World) (config : PoolConfig) : Pool :=
  (Pool.empty ⟨w.nextId⟩ config).reserve config.initialReservation

/-- A new pool comes behind the ones there are. -/
theorem addPool_eq (w : World) (config : PoolConfig) :
    ∃ events : List Event, (∀ e ∈ events, e.level ≠ .warn) ∧
      w.addPool config = (w.pools.length,
        { pools := w.pools ++ [w.newPool config]
          nextId := w.nextId + 1
          events := w.events ++ events }) := by
  let grown : World := ⟨w.pools ++ [Pool.empty ⟨w.nextId⟩ config], w.nextId + 1,
    w.events ++ [.poolCreated ⟨w.nextId⟩ config.stride config.initialReservation]⟩
  have hp : grown.pool? w.pools.length = some (Pool.empty ⟨w.nextId⟩ config) := by
    simp [grown, pool?]
  obtain ⟨events, hquiet, heq⟩ := reserve_eq hp config.initialReservation
  refine ⟨.poolCreated ⟨w.nextId⟩ config.stride config.initialReservation :: events, ?_, ?_⟩
  · intro e he
    rcases List.mem_cons.mp he with rfl | hlater
    · exact Level.noConfusion
    · exact hquiet e hlater
  · show (w.pools.length, grown.reserve w.pools.length config.initialReservation) = _
    rw [heq]
    simp [grown, setPool, newPool]

theorem wellFormed_newPool (wf : w.WellFormed) (config : PoolConfig) :
    (w.newPool config).WellFormed := by
  refine Pool.wellFormed_reserve (Pool.wellFormed_empty config fun he => ?_) _
  have hzero : w.nextId = 0 := congrArg PoolId.number he
  exact absurd wf.nextId_pos (by omega)

theorem newPool_id (config : PoolConfig) : (w.newPool config).id = ⟨w.nextId⟩ := by
  unfold newPool
  obtain ⟨reserved, heq⟩ := (Pool.empty ⟨w.nextId⟩ config).reserve_eq config.initialReservation
  rw [heq]
  rfl

theorem newPool_live (config : PoolConfig) : (w.newPool config).live = 0 := by
  unfold newPool
  obtain ⟨reserved, heq⟩ := (Pool.empty ⟨w.nextId⟩ config).reserve_eq config.initialReservation
  rw [heq]
  rfl

/-- The new pool is where it was put, and the others are where they were. -/
theorem pool?_append {w' : World} (hpools : w'.pools = w.pools ++ [p]) :
    w'.pool? j = if j = w.pools.length then some p else w.pool? j := by
  rw [pool?, hpools, pool?]
  rcases Nat.lt_trichotomy j w.pools.length with hlt | heq | hgt
  · rw [if_neg (Nat.ne_of_lt hlt), List.getElem?_append_left hlt]
  · subst heq
    simp
  · rw [if_neg (Nat.ne_of_gt hgt), List.getElem?_eq_none (by simp; omega),
      List.getElem?_eq_none (by omega)]

theorem lt_of_pool? (hp : w.pool? i = some p) : i < w.pools.length :=
  (List.getElem?_eq_some_iff.mp hp).1

theorem WellFormed.addPool (wf : w.WellFormed) (config : PoolConfig) :
    (w.addPool config).2.WellFormed := by
  obtain ⟨events, -, heq⟩ := addPool_eq w config
  rw [heq]
  have hpool : ∀ j q,
      (⟨w.pools ++ [w.newPool config], w.nextId + 1, w.events ++ events⟩ : World).pool? j = some q →
        j = w.pools.length ∧ q = w.newPool config ∨ w.pool? j = some q := by
    intro j q hq
    rw [pool?_append (p := w.newPool config) rfl] at hq
    split at hq
    · rename_i hj
      exact .inl ⟨hj, (Option.some.inj hq).symm⟩
    · exact .inr hq
  have hnew : ∀ j q, w.pool? j = some q → q.id ≠ (w.newPool config).id := by
    intro j q hq he
    have hlt := wf.id_lt j q hq
    rw [he, newPool_id] at hlt
    exact Nat.lt_irrefl _ hlt
  refine ⟨fun j q hq => ?_, fun j₁ j₂ q₁ q₂ hq₁ hq₂ hid => ?_, fun j q hq => ?_, Nat.succ_pos _⟩
  · rcases hpool j q hq with ⟨-, rfl⟩ | hold
    · exact wellFormed_newPool wf config
    · exact wf.pool j q hold
  · rcases hpool j₁ q₁ hq₁ with ⟨rfl, rfl⟩ | hold₁
    · rcases hpool j₂ q₂ hq₂ with ⟨rfl, rfl⟩ | hold₂
      · rfl
      · exact absurd hid.symm (hnew j₂ q₂ hold₂)
    · rcases hpool j₂ q₂ hq₂ with ⟨rfl, rfl⟩ | hold₂
      · exact absurd hid (hnew j₁ q₁ hold₁)
      · exact wf.id_inj j₁ j₂ q₁ q₂ hold₁ hold₂ hid
  · rcases hpool j q hq with ⟨rfl, rfl⟩ | hold
    · rw [newPool_id]
      exact Nat.lt_succ_self _
    · exact Nat.lt_succ_of_lt (wf.id_lt j q hold)

end ParticleStore.World
