/-
ParticleStore.Proofs.Session.Stale — a particle that holds a released slot does no harm.

Handles can be copied, so the slot of a particle can be released without the particle's
knowing, and taken again by somebody else. From then on, until the slot's generation has
come round, the particle's handle is stale (`HoldsReleased.stale`). Whatever is done with
the particle then either fails and changes nothing, or forgets the handle with a
warning (`Harmless`). As long as the handle is not forgotten, no step that acts on the
particle changes anything in its pool (`pool?_perform`), and by induction no run of such
steps does (`pool?_run`).
-/
import ParticleStore.Proofs.Particle.Stale
import ParticleStore.Proofs.World.Authenticity

namespace ParticleStore

open Particle World StepM

variable {dim spacedim : Nat} {s : Session dim spacedim} {key dest i j b : Nat} {h : Handle}
  {pl : Pool} {p : Particle dim spacedim} {earlier later : List SlotEvent}

namespace Session

/-- The particle under a key holds a slot. -/
def Holds (s : Session dim spacedim) (key : Nat) (slot : HeldSlot) : Prop :=
  (s.particles.find? key).bind Particle.slot? = some slot

/-- The particle under a key holds a slot that was issued and then released, but not so often that
its generation has come round. -/
structure HoldsReleased (s : Session dim spacedim) (key i : Nat) (h : Handle)
    (earlier later : List SlotEvent) : Prop where
  holds : s.Holds key (i, h)
  history : ({} : World).Leads PoolCall.isAny (earlier ++ .issued i h :: later) s.world
  released : 0 < releases later i h.index.toNat
  few : releases later i h.index.toNat < UInt32.size

/-- The handle is stale, whoever owns the slot by now. -/
theorem HoldsReleased.stale (held : s.HoldsReleased key i h earlier later) :
    ∃ p pl, s.particles.find? key = some p ∧ p.Stale s.world i h pl := by
  obtain ⟨p, hp, hs⟩ := Option.bind_eq_some_iff.mp held.holds
  have recorded := recorded_of_leads held.history
  obtain ⟨⟨pl, hpl, -⟩, -⟩ := recorded.issued earlier i h later rfl
  refine ⟨p, pl, hp, hs, hpl, ?_⟩
  rw [Pool.flawed?, (recorded.judges hpl h).locate_eq,
    recorded.verdict_of_released hpl held.released held.few]
  rfl

/-- The steps that act on the particle under a key: those that read or change it, that use the handle
it holds, that copy it over another one or move it to a free place, or that put a new one in its
place. -/
def ActsOn (s : Session dim spacedim) (key : Nat) : Step dim spacedim → Prop
  | .make k | .makeAt k _ _ _ | .encode k _ | .update k _ | .save k _ _ _ | .load k _ _
  | .setLocation k _ | .setReference k _ | .setId k _ | .releaseSlot k | .look k | .moveTo k _
  | .setValues k _ | .setValuesFromView k _ | .overwrite k _ | .report k | .keys k | .copy k _
  | .drop k => k = key
  | .copyFrom k source => k = key ∨ source = key
  | .readSlot _ name | .writeSlot _ name _ | .isLive _ name | .duplicate _ name _
  | .openView _ _ name _ | .shareHandle name _ | .describeHandle name | .sameHandle name _ =>
    name = .ofParticle key
  | .encodeBatch keys _ => key ∈ keys
  | .take k dest => k = key ∧ s.particles.find? dest = none
  | _ => False

/-- Each of the steps acts on the particle under a key, which holds the slot before the step. -/
def OnlyOn (s : Session dim spacedim) (key : Nat) (slot : HeldSlot) :
    List (Step dim spacedim) → Prop
  | [] => True
  | step :: rest =>
    s.Holds key slot ∧ s.ActsOn key step ∧ (s.perform step).2.OnlyOn key slot rest

/-- The session with the event that a stale handle was given back. -/
def warned (s : Session dim spacedim) (id : ParticleId) : Session dim spacedim :=
  { s with world := { s.world with events := s.world.events ++ [.staleHandle id] } }

/-- Moving the particle to a free place drops nothing. -/
theorem world_take (hp : s.particles.find? key = some p) (hfree : s.particles.find? dest = none) :
    (s.perform (.take key dest)).2.world = s.world := by
  have hne : dest ≠ key := by
    rintro rfl
    rw [hp] at hfree
    cases hfree
  have hstill : (s.particles.insert key p.take.2).find? dest = none := by
    rw [Registry.find?_insert_of_ne _ _ hne]
    exact hfree
  rw [perform_snd]
  simp only [ofStep, StepM.take]
  rw [exec_particle_of_some hp, exec_putBack_bind, exec_bind]
  unfold store
  rw [exec_bind, exec_get]
  simp only [hstill]
  rfl

section Stale

variable (sound : s.Sound False) (hp : s.particles.find? key = some p)
  (stale : p.Stale s.world i h pl)

include sound hp stale

/-! ## Handles -/

/-- The handle of the particle is refused by every pool. -/
theorem flawed_in_pools {plj : Pool} (hj : s.world.pool? j = some plj) :
    ∃ flaw, plj.flawed? p.handle = some (.invalidHandle flaw) := by
  obtain ⟨-, hhandle, -⟩ := slot?_eq_some_iff.mp stale.slot
  rw [hhandle]
  exact flawed?_of_stale stale sound.wellFormed (sound.placed hp) hj

theorem perform_openView_of_stale {plj : Pool} (hj : s.world.pool? j = some plj) (dest : Nat)
    (writable : Bool) :
    ∃ flaw, plj.flawed? p.handle = some (.invalidHandle flaw) ∧
      s.perform (.openView dest j (.ofParticle key) writable) =
        (.poolFailed (.refused (.invalidHandle flaw)), s) := by
  have wfj := sound.wellFormed.pool j plj hj
  obtain ⟨flaw, hflaw⟩ := flawed_in_pools sound hp stale hj
  refine ⟨flaw, hflaw, ?_⟩
  rw [perform_eq]
  simp only [ofStep, openView]
  rw [exec_poolPosition_of_some hj, exec_handle_of_particle hp, exec_actOnPool_bind,
    exec_onPool_decided hj (Pool.openView_eq wfj writable), hflaw]
  rfl

theorem perform_writeSlot_of_stale (j : Nat) (values : List Scalar) :
    ∃ answer, s.perform (.writeSlot j (.ofParticle key) values) = (answer, s) := by
  rw [perform_eq]
  simp only [ofStep, writeSlot]
  rw [exec_poolPosition_bind]
  cases hj : s.world.pool? j with
  | none => exact ⟨_, rfl⟩
  | some plj =>
    have wfj := sound.wellFormed.pool j plj hj
    obtain ⟨flaw, hflaw⟩ := flawed_in_pools sound hp stale hj
    simp only
    rw [exec_handle_of_particle hp, exec_actOnPool_bind,
      exec_onPool_decided hj (Pool.overwrite_eq wfj), hflaw]
    exact ⟨_, rfl⟩

theorem perform_duplicate_of_stale (j dest : Nat) :
    ∃ answer, s.perform (.duplicate j (.ofParticle key) dest) = (answer, s) := by
  rw [perform_eq]
  simp only [ofStep, issue]
  rw [exec_handle_of_particle hp, exec_poolPosition_bind]
  cases hj : s.world.pool? j with
  | none => exact ⟨_, rfl⟩
  | some plj =>
    have wfj := sound.wellFormed.pool j plj hj
    obtain ⟨flaw, hflaw⟩ := flawed_in_pools sound hp stale hj
    simp only
    rw [exec_actOnPool_bind, exec_onPool_decided hj (Pool.duplicate_eq wfj), hflaw]
    cases plj.viewed? <;> exact ⟨_, rfl⟩

/-! ## Values -/

theorem perform_overwrite_of_stale (new : List Scalar) :
    s.perform (.overwrite key new) = (.failed (.refused .stale), s) := by
  rw [perform_eq]
  simp only [ofStep]
  rw [exec_particle_of_some hp, exec_actOnParticle_bind,
    exec_overwrite_of_stale stale sound.wellFormed]
  rfl

theorem perform_setValues_of_stale (new : List Scalar) :
    s.perform (.setValues key new) =
      (.failed (.refused ((mismatch? new.length pl.stride).getD .stale)), s) := by
  rw [perform_eq]
  simp only [ofStep]
  rw [finish_revise hp, exec_setValues_of_stale stale sound.wellFormed]
  rfl

theorem perform_setValuesFromView_of_stale (v : Nat) :
    ∃ answer, s.perform (.setValuesFromView key v) = (answer, s) := by
  obtain ⟨result, hviewed⟩ := exec_viewed (s := s) v
  rw [perform_eq]
  simp only [ofStep, setValuesFromView]
  rw [exec_particle_of_some hp, exec_bind, hviewed]
  cases result with
  | error answer => exact ⟨answer, rfl⟩
  | ok values =>
    simp only
    rw [exec_actOnParticle_bind, exec_setValues_of_stale stale sound.wellFormed]
    exact ⟨_, rfl⟩

theorem perform_moveTo_of_stale {target : Pool} (hj : s.world.pool? j = some target) :
    s.perform (.moveTo key j) =
      (.failed (.refused ((mismatch? pl.stride target.stride).getD .stale)), s) := by
  rw [perform_eq]
  simp only [ofStep]
  rw [exec_poolPosition_of_some hj, finish_revise hp,
    exec_moveTo_of_stale stale sound.wellFormed hj]
  rfl

/-! ## Records -/

theorem perform_encode_of_stale (b : Nat) :
    s.perform (.encode key b) = (.transferred (Attempt.refuse .stale) (s.bytes b).length, s) := by
  rw [perform_encode, hp]
  simp only [encode_of_stale stale sound.wellFormed]
  rfl

/-- Nothing is appended to the buffer. -/
theorem perform_save_of_stale (b : Nat) (chunk room : Option Nat) :
    s.perform (.save key b chunk room) =
      (.transferred (Attempt.refuse .stale) (s.bytes b).length,
        { s with buffers := s.buffers.insert b (s.bytes b) }) := by
  rw [perform_eq]
  simp only [ofStep, StepM.save]
  rw [exec_particle_of_some hp, exec_buffer_bind, exec_world_bind,
    save_of_stale stale sound.wellFormed]
  simp only
  rw [exec_keepBuffer_bind, List.append_nil]
  rfl

/-- No record is taken over from a buffer; one of the right number of values is refused for the
handle. -/
theorem perform_update_of_stale (b : Nat) :
    ∃ cause, s.perform (.update key b) =
        (.transferred (Attempt.refuse cause) (s.bytes b).length, s) ∧
      ∀ (r : Record dim spacedim) rest,
        (Record.decoder dim spacedim).run (s.bytes b) = .ok (r, rest) →
        r.values.length = pl.stride → cause = .stale := by
  obtain ⟨cause, hcause, hstale⟩ := exec_update_of_stale stale sound.wellFormed (s.bytes b)
  refine ⟨cause, ?_, hstale⟩
  rw [perform_eq]
  simp only [ofStep, StepM.update]
  rw [exec_particle_of_some hp, exec_buffer_bind, exec_act_bind, hcause]
  rfl

/-- A record without values can be taken over from a stream, and then the handle stays; any other
one is refused. -/
theorem perform_load_of_stale (b : Nat) (chunk : Option Nat) :
    (∃ cause left, s.perform (.load key b chunk) =
        (.transferred (Attempt.refuse cause) left.length,
          { s with buffers := s.buffers.insert b left })) ∨
      ∃ (r : Record dim spacedim) (left : Bytes),
        (Record.decoder dim spacedim).run (s.bytes b) = .ok (r, left) ∧ r.values = [] ∧
          (s.perform (.load key b chunk)).2.world = s.world := by
  rw [perform_eq]
  simp only [ofStep, StepM.load]
  rw [exec_particle_of_some hp, exec_buffer_bind, exec_bind, exec_modifyGet]
  simp only
  rw [exec_keepBuffer_bind]
  rcases run_load_of_stale stale sound.wellFormed (sound.placed hp) chunk (s.bytes b) with
    ⟨cause, left, hload⟩ | ⟨r, left, hdecode, hempty, hload⟩
  · rw [hload]
    exact .inl ⟨cause, left, rfl⟩
  · rw [hload]
    exact .inr ⟨r, left, hdecode, hempty, rfl⟩

/-! ## Copies -/

theorem perform_copy_of_stale (dest : Nat) :
    s.perform (.copy key dest) =
      (.failed (.refused (if pl.isViewed then .pool .storageBorrowed else .stale)), s) := by
  rw [perform_eq]
  simp only [ofStep, StepM.copy]
  rw [exec_particle_of_some hp, exec_actOnParticle_bind, exec_copy_of_stale stale sound.wellFormed]
  rfl

/-- A copy over another particle is refused, whatever that one holds. -/
theorem perform_copyFrom_source_of_stale (k : Nat) :
    ∃ answer, s.perform (.copyFrom k key) = (answer, s) := by
  rw [perform_eq]
  simp only [ofStep]
  rw [exec_particle_of_some hp]
  cases hq : s.particles.find? k with
  | none =>
    unfold revise
    rw [exec_particle_bind, hq]
    exact ⟨_, rfl⟩
  | some q =>
    obtain ⟨cause, hcause⟩ :=
      exec_copyFrom_source_of_stale stale sound.wellFormed (sound.placed hq)
    rw [finish_revise hq, hcause]
    exact ⟨_, rfl⟩

theorem perform_copyFrom_within_of_stale {k : Nat} {q : Particle dim spacedim} {h' : Handle}
    (hq : s.particles.find? k = some q) (hs : q.slot? = some (i, h')) :
    ∃ cause, s.perform (.copyFrom key k) = (.failed (.refused cause), s) := by
  obtain ⟨cause, hcause⟩ := exec_copyFrom_within_of_stale stale sound.wellFormed hs
  refine ⟨cause, ?_⟩
  rw [perform_eq]
  simp only [ofStep]
  rw [exec_particle_of_some hq, finish_revise hp, hcause]
  rfl

/-- A particle without a slot takes the place, and the handle is forgotten. -/
theorem perform_copyFrom_none_of_stale {k : Nat} {q : Particle dim spacedim}
    (hq : s.particles.find? k = some q) (hs : q.slot? = none) :
    s.perform (.copyFrom key k) =
      (.done, { s.warned p.id with
        particles := s.particles.insert key { q with handle := .invalid } }) := by
  rw [perform_eq]
  simp only [ofStep]
  rw [exec_particle_of_some hq, finish_revise hp,
    exec_copyFrom_none_of_stale stale sound.wellFormed (sound.placed hp) hs]
  rfl

/-- A copy from another pool is refused, or a slot is taken there and the handle forgotten. -/
theorem perform_copyFrom_across_of_stale {k : Nat} {q : Particle dim spacedim} {plj : Pool}
    {h' : Handle} (hq : s.particles.find? k = some q) (hs : q.slot? = some (j, h'))
    (hj : s.world.pool? j = some plj) (hji : j ≠ i) :
    (∃ cause, s.perform (.copyFrom key k) = (.failed (.refused cause), s)) ∨
      s.perform (.copyFrom key k) =
        (.done, { s with
          world := { s.world.setPool j (plj.filled (plj.block h'.index.toNat)) with
            events := s.world.events ++ [.staleHandle p.id] }
          particles := s.particles.insert key { q with handle := plj.nextHandle } }) := by
  rw [perform_eq]
  simp only [ofStep]
  rw [exec_particle_of_some hq, finish_revise hp,
    exec_copyFrom_across_of_stale stale sound.wellFormed (sound.placed hp) hs hj hji]
  cases (plj.viewed?.or ((plj.flawed? h').or plj.full?)).map ParticleError.pool with
  | some cause => exact .inl ⟨cause, rfl⟩
  | none => exact .inr rfl

/-- Whatever is copied over the particle, its pool is left alone. -/
theorem pool?_copyFrom_of_stale (k : Nat) :
    (s.perform (.copyFrom key k)).2.world.pool? i = some pl := by
  cases hq : s.particles.find? k with
  | none =>
    rw [perform_snd]
    simp only [ofStep]
    rw [exec_particle_bind, hq]
    exact stale.pool
  | some q =>
    cases hs : q.slot? with
    | none =>
      rw [perform_copyFrom_none_of_stale sound hp stale hq hs]
      exact stale.pool
    | some slot =>
      obtain ⟨j, h'⟩ := slot
      by_cases hji : j = i
      · subst hji
        obtain ⟨cause, heq⟩ := perform_copyFrom_within_of_stale sound hp stale hq hs
        rw [heq]
        exact stale.pool
      · obtain ⟨plj, hj, -⟩ := (sound.placed hq).slot hs
        rcases perform_copyFrom_across_of_stale sound hp stale hq hs hj hji with
          ⟨cause, heq⟩ | heq
        · rw [heq]
          exact stale.pool
        · rw [heq]
          exact (pool?_setPool_of_ne (Ne.symm hji)).trans stale.pool

/-! ## Giving the slot back -/

theorem perform_releaseSlot_of_stale :
    s.perform (.releaseSlot key) =
      (.done, { s.warned p.id with
        particles := s.particles.insert key { p with handle := .invalid } }) := by
  rw [perform_eq]
  simp only [ofStep]
  rw [finish_revise hp, exec_releaseSlot_of_stale stale sound.wellFormed (sound.placed hp)]
  rfl

theorem perform_drop_of_stale :
    s.perform (.drop key) =
      (.flag true, { s.warned p.id with particles := s.particles.erase key }) := by
  rw [perform_eq]
  simp only [ofStep, StepM.drop]
  rw [exec_bind, exec_get]
  simp only [hp]
  rw [exec_bind, exec_set]
  simp only
  rw [exec_actOnParticle_bind, exec_drop_of_stale stale sound.wellFormed (sound.placed hp)]
  rfl

/-! ## Any step, and any run -/

/-- **A step that acts on the particle** leaves the pool alone that its handle is of. -/
theorem pool?_perform {step : Step dim spacedim} (hacts : s.ActsOn key step) :
    (s.perform step).2.world.pool? i = some pl := by
  have idle {s' : Session dim spacedim} (hsame : s'.world = s.world) :
      s'.world.pool? i = some pl := hsame ▸ stale.pool
  -- a step that is refused leaves the whole session as it was
  have refused (hrefused : ∃ answer, s.perform step = (answer, s)) :
      (s.perform step).2.world.pool? i = some pl := by
    obtain ⟨answer, heq⟩ := hrefused
    exact idle (congrArg (·.2.world) heq)
  have missing {j : Nat} (hj : s.world.pool? j = none) (f : Nat → StepM dim spacedim _)
      (hstep : ofStep step = poolPosition j >>= f) : ∃ answer, s.perform step = (answer, s) := by
    rw [perform_eq, hstep, exec_poolPosition_bind, hj]
    exact ⟨_, rfl⟩
  have stored (q : Particle dim spacedim) (hstep : ofStep step = storeNew key q) :
      (s.perform step).2.world.pool? i = some pl := by
    rw [perform_snd, hstep, storeNew, exec_bind,
      exec_store sound.wellFormed fun old hold => sound.placed hold]
    simp only [exec_pure, Session.stored, hp, worldWithout_of_stale stale]
    exact stale.pool
  have relabelled (f : Particle dim spacedim → Particle dim spacedim)
      (hstep : ofStep step = revise key fun p => (return f p)) :
      (s.perform step).2.world = s.world := by
    rw [perform_eq, hstep, finish_revise hp]
    rfl
  cases step with
  | openView dest j name writable =>
    obtain rfl := hacts
    cases hj : s.world.pool? j with
    | none => exact refused (missing hj _ rfl)
    | some plj =>
      obtain ⟨flaw, -, heq⟩ := perform_openView_of_stale sound hp stale hj dest writable
      exact refused ⟨_, heq⟩
  | writeSlot j name values =>
    obtain rfl := hacts
    exact refused (perform_writeSlot_of_stale sound hp stale j values)
  | duplicate j name dest =>
    obtain rfl := hacts
    exact refused (perform_duplicate_of_stale sound hp stale j dest)
  | shareHandle name dest =>
    obtain rfl := hacts
    rw [perform_snd]
    simp only [ofStep, shareHandle]
    rw [exec_handle_of_particle hp]
    exact stale.pool
  | overwrite k new =>
    obtain rfl := hacts
    exact refused ⟨_, perform_overwrite_of_stale sound hp stale new⟩
  | setValues k new =>
    obtain rfl := hacts
    exact refused ⟨_, perform_setValues_of_stale sound hp stale new⟩
  | setValuesFromView k v =>
    obtain rfl := hacts
    exact refused (perform_setValuesFromView_of_stale sound hp stale v)
  | moveTo k j =>
    obtain rfl := hacts
    cases hj : s.world.pool? j with
    | none => exact refused (missing hj _ rfl)
    | some plj => exact refused ⟨_, perform_moveTo_of_stale sound hp stale hj⟩
  | encode k b =>
    obtain rfl := hacts
    exact refused ⟨_, perform_encode_of_stale sound hp stale b⟩
  | encodeBatch keys b =>
    refine idle ?_
    rw [perform_snd]
    simp only [ofStep, encodeBatch]
    rw [exec_bind, exec_particles]
    cases keys.mapM s.particles.find? with
    | none => rfl
    | some ps =>
      simp only
      rw [exec_world_bind, exec_buffer_bind]
      split <;> rfl
  | save k b chunk room =>
    obtain rfl := hacts
    exact idle (congrArg (·.2.world) (perform_save_of_stale sound hp stale b chunk room))
  | update k b =>
    obtain rfl := hacts
    obtain ⟨cause, heq, -⟩ := perform_update_of_stale sound hp stale b
    exact refused ⟨_, heq⟩
  | load k b chunk =>
    obtain rfl := hacts
    rcases perform_load_of_stale sound hp stale b chunk with
      ⟨cause, left, heq⟩ | ⟨r, left, -, -, hsame⟩
    · exact idle (congrArg (·.2.world) heq)
    · exact idle hsame
  | copy k dest =>
    obtain rfl := hacts
    exact refused ⟨_, perform_copy_of_stale sound hp stale dest⟩
  | copyFrom k source =>
    rcases hacts with rfl | rfl
    · exact pool?_copyFrom_of_stale sound hp stale source
    · exact refused (perform_copyFrom_source_of_stale sound hp stale k)
  | make k =>
    obtain rfl := hacts
    exact stored .atOrigin rfl
  | makeAt k location reference id =>
    obtain rfl := hacts
    exact stored (.bare location reference id) rfl
  | take k dest =>
    obtain ⟨rfl, hfree⟩ := hacts
    exact idle (world_take hp hfree)
  | setLocation k location =>
    obtain rfl := hacts
    exact idle (relabelled (fun p => { p with location }) rfl)
  | setReference k reference =>
    obtain rfl := hacts
    exact idle (relabelled (fun p => { p with reference }) rfl)
  | setId k id =>
    obtain rfl := hacts
    exact idle (relabelled (fun p => { p with id }) rfl)
  | releaseSlot k =>
    obtain rfl := hacts
    rw [perform_releaseSlot_of_stale sound hp stale]
    exact stale.pool
  | drop k =>
    obtain rfl := hacts
    rw [perform_drop_of_stale sound hp stale]
    exact stale.pool
  | readSlot | isLive | describeHandle | sameHandle | look | report | keys =>
    rw [perform_snd, exec_look rfl]
    exact stale.pool
  | _ => exact hacts.elim

end Stale

/-- **A run of steps that act on the particle** leaves its pool alone, for as long as the particle
holds the slot. -/
theorem pool?_run {steps : List (Step dim spacedim)} (sound : s.Sound False)
    (hpool : s.world.pool? i = some pl) (hflaw : pl.flawed? h = some (.invalidHandle .stale))
    (only : s.OnlyOn key (i, h) steps) : (s.run steps).2.world.pool? i = some pl := by
  induction steps generalizing s with
  | nil => exact hpool
  | cons step rest ih =>
    obtain ⟨hholds, hacts, only⟩ := only
    obtain ⟨p, hp, hslot⟩ := Option.bind_eq_some_iff.mp hholds
    exact ih (sound.perform step)
      (pool?_perform sound hp ⟨hslot, hpool, hflaw⟩ hacts) only

/-- The particle under a key, which takes itself for the holder of a slot of the pool `pl` at
position `i`, does no harm. -/
structure Harmless (s : Session dim spacedim) (key i : Nat) (h : Handle)
    (p : Particle dim spacedim) (pl : Pool) : Prop where
  /-- It is under its key, and its pool at its position. -/
  particle : s.particles.find? key = some p
  pool : s.world.pool? i = some pl
  /-- Its values can neither be read nor written to. -/
  values : p.values s.world = Attempt.refuse .stale
  openView : ∀ dest writable, s.perform (.openView dest i (.ofParticle key) writable) =
    (.poolFailed (.refused (.invalidHandle .stale)), s)
  overwrite : ∀ new, s.perform (.overwrite key new) = (.failed (.refused .stale), s)
  setValues : ∀ new, new.length = pl.stride →
    s.perform (.setValues key new) = (.failed (.refused .stale), s)
  /-- No record of it is written. -/
  encode : ∀ b, s.perform (.encode key b) =
    (.transferred (Attempt.refuse .stale) (s.bytes b).length, s)
  save : ∀ b chunk room, s.perform (.save key b chunk room) =
    (.transferred (Attempt.refuse .stale) (s.bytes b).length,
      { s with buffers := s.buffers.insert b (s.bytes b) })
  /-- It is neither copied nor copied over with a slot of its pool, nor does it move. -/
  copy : ∀ dest, s.perform (.copy key dest) =
    (.failed (.refused (if pl.isViewed then .pool .storageBorrowed else .stale)), s)
  copyFrom : ∀ source q h', s.particles.find? source = some q → q.slot? = some (i, h') →
    ∃ cause, s.perform (.copyFrom key source) = (.failed (.refused cause), s)
  moveTo : ∀ j target, s.world.pool? j = some target → s.perform (.moveTo key j) =
    (.failed (.refused ((mismatch? pl.stride target.stride).getD .stale)), s)
  /-- No record with values is taken over, from a buffer or a stream. -/
  update : ∀ b (r : Record dim spacedim) rest,
    (Record.decoder dim spacedim).run (s.bytes b) = .ok (r, rest) → r.values.length = pl.stride →
      s.perform (.update key b) = (.transferred (Attempt.refuse .stale) (s.bytes b).length, s)
  load : ∀ b chunk (r : Record dim spacedim) rest,
    (Record.decoder dim spacedim).run (s.bytes b) = .ok (r, rest) → r.values ≠ [] →
      ∃ cause left, s.perform (.load key b chunk) =
        (.transferred (Attempt.refuse cause) left.length,
          { s with buffers := s.buffers.insert b left })
  /-- The handle is forgotten, with a warning and no slot released, when the particle is asked to
  give its slot back, when it is dropped, or when a particle without a slot is copied over it. -/
  warning : (Event.staleHandle p.id).level = .warn
  releaseSlot : s.perform (.releaseSlot key) =
    (.done, { s.warned p.id with
      particles := s.particles.insert key { p with handle := .invalid } })
  drop : s.perform (.drop key) =
    (.flag true, { s.warned p.id with particles := s.particles.erase key })
  copyFrom_none : ∀ source q, s.particles.find? source = some q → q.slot? = none →
    s.perform (.copyFrom key source) =
      (.done, { s.warned p.id with
        particles := s.particles.insert key { q with handle := .invalid } })
  /-- It is forgotten in the same way if the copy has taken a slot of another pool. -/
  copyFrom_across : ∀ source q j h', s.particles.find? source = some q → q.slot? = some (j, h') →
    j ≠ i → (∃ cause, s.perform (.copyFrom key source) = (.failed (.refused cause), s)) ∨
      ∃ plj, s.world.pool? j = some plj ∧ s.perform (.copyFrom key source) =
        (.done, { s with
          world := { s.world.setPool j (plj.filled (plj.block h'.index.toNat)) with
            events := s.world.events ++ [.staleHandle p.id] }
          particles := s.particles.insert key { q with handle := plj.nextHandle } })
  /-- Its pool stays as it is for as long as the particle holds the slot and nothing else acts. -/
  run : ∀ steps, s.OnlyOn key (i, h) steps → (s.run steps).2.world.pool? i = some pl

theorem Sound.harmless (sound : s.Sound False) (hp : s.particles.find? key = some p)
    (stale : p.Stale s.world i h pl) : s.Harmless key i h p pl where
  particle := hp
  pool := stale.pool
  values := values_of_stale stale sound.wellFormed
  openView dest writable := by
    obtain ⟨flaw, hflaw, heq⟩ := perform_openView_of_stale sound hp stale stale.pool dest writable
    obtain ⟨-, hhandle, -⟩ := slot?_eq_some_iff.mp stale.slot
    rw [hhandle, stale.flawed] at hflaw
    cases hflaw
    exact heq
  overwrite := perform_overwrite_of_stale sound hp stale
  setValues new hlen := by
    rw [perform_setValues_of_stale sound hp stale, mismatch?_eq_none_iff.mpr hlen]
    rfl
  encode := perform_encode_of_stale sound hp stale
  save := perform_save_of_stale sound hp stale
  copy := perform_copy_of_stale sound hp stale
  copyFrom source q h' hq hs := perform_copyFrom_within_of_stale sound hp stale hq hs
  moveTo j target ht := perform_moveTo_of_stale sound hp stale ht
  update b r rest hdecode hlen := by
    obtain ⟨cause, heq, hstale⟩ := perform_update_of_stale sound hp stale b
    rw [heq, hstale r rest hdecode hlen]
  load b chunk r rest hdecode hvalues := by
    rcases perform_load_of_stale sound hp stale b chunk with
      hrefused | ⟨r', left, hdecode', hempty, -⟩
    · exact hrefused
    · rw [hdecode] at hdecode'
      cases hdecode'
      exact absurd hempty hvalues
  warning := rfl
  releaseSlot := perform_releaseSlot_of_stale sound hp stale
  drop := perform_drop_of_stale sound hp stale
  copyFrom_none source q hq hs := perform_copyFrom_none_of_stale sound hp stale hq hs
  copyFrom_across source q j h' hq hs hji := by
    obtain ⟨plj, hj, -⟩ := (sound.placed hq).slot hs
    exact (perform_copyFrom_across_of_stale sound hp stale hq hs hj hji).imp_right
      fun heq => ⟨plj, hj, heq⟩
  run steps := pool?_run sound stale.pool stale.flawed

/-- **A particle whose slot was released behind its back does no harm**, after every run of steps,
whether the slot is free again or somebody else's. -/
theorem harmless_run (steps : List (Step dim spacedim))
    (held : (run ({} : Session dim spacedim) steps).2.HoldsReleased key i h earlier later) :
    ∃ p pl, (run ({} : Session dim spacedim) steps).2.Harmless key i h p pl := by
  obtain ⟨p, pl, hp, stale⟩ := held.stale
  exact ⟨p, pl, (sound_reached steps).harmless hp stale⟩

/-- A slot is released behind its particle's back, and taken by somebody else. -/
theorem harmless_run_of_reused :
    let steps : List (Step 1 1) := [.makePool { stride := 1 }, .make 0, .moveTo 0 0,
      .setValues 0 [⟨5⟩], .shareHandle (.ofParticle 0) 0, .release 0 0, .allocate 0 1]
    let h : Handle := ⟨⟨1⟩, 0, 0⟩
    (run ({} : Session 1 1) steps).2.HoldsReleased 0 0 h [] [.released 0 h, .issued 0 ⟨⟨1⟩, 0, 1⟩] ∧
      ∃ p pl, (run ({} : Session 1 1) steps).2.Harmless 0 0 h p pl := by
  intro steps h
  have held : (run ({} : Session 1 1) steps).2.HoldsReleased 0 0 h []
      [.released 0 h, .issued 0 ⟨⟨1⟩, 0, 1⟩] := by
    refine ⟨rfl, ⟨[.makePool { stride := 1 }, .allocate 0, .setValues 0 h [⟨5⟩], .release 0 h,
      .allocate 0], fun _ _ => rfl, rfl⟩, by decide, by decide⟩
  exact ⟨held, harmless_run steps held⟩

end Session

end ParticleStore
