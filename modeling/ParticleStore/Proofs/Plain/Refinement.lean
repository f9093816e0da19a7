/-
ParticleStore.Proofs.Plain.Refinement — particles with pools are particles that own their values.

All particles of a pool share one array of scalars, and a slot that one of them has given
back is the next one's. None of this can be told from outside: a session whose slots are
taken and released by particles only answers every step as a plain session does, in
which there is nothing to share (`run_refines_plain`).
-/
import ParticleStore.Proofs.Plain.Apart
import ParticleStore.Proofs.Plain.Batches
import ParticleStore.Proofs.Plain.Views
import ParticleStore.Proofs.Session.Sound

namespace ParticleStore

open ParticleStore.Action Particle World StepM

variable {dim spacedim : Nat} {s : Session dim spacedim} {key dest i b : Nat}

namespace World

variable {w : World}

/-- A new pool has no particles and no views. -/
theorem plain_newPool (config : PoolConfig) :
    (w.newPool config).plain =
      { id := ⟨w.nextId⟩, stride := config.stride, limit := config.slotLimit } := by
  rw [newPool, Pool.plain_reserve]
  rfl

end World

namespace Session

/-- A new pool comes behind the ones there are, and no particle notices. -/
theorem plain_addPool (sound : s.Sound True) (viewing : s.Viewing) (config : PoolConfig) :
    ({ s with world := (s.world.addPool config).2 } : Session dim spacedim).plain =
        { s.plain with
          pools := s.world.plain ++
            [{ id := ⟨s.world.nextId⟩, stride := config.stride, limit := config.slotLimit }]
          nextId := s.world.nextId + 1 } ∧
      ({ s with world := (s.world.addPool config).2 } : Session dim spacedim).Viewing := by
  obtain ⟨events, -, heq⟩ := addPool_eq s.world config
  rw [heq]
  have hold : ∀ j pl, s.world.pool? j = some pl →
      (⟨s.world.pools ++ [s.world.newPool config], s.world.nextId + 1,
        s.world.events ++ events⟩ : World).pool? j = s.world.pool? j := by
    intro j pl hj
    rw [pool?_append (p := s.world.newPool config) rfl, if_neg (Nat.ne_of_lt (lt_of_pool? hj))]
  have hnew := plain_newPool (w := s.world) config
  refine ⟨PlainSession.ext ?_ rfl (funext fun k => ?_) (funext fun k => ?_) rfl,
    viewing.ascending, ?_⟩
  · show (s.world.pools ++ [s.world.newPool config]).map Pool.plain = _
    rw [List.map_append, List.map_singleton, hnew]
    rfl
  · refine Option.map_congr fun q hq => plain_congr fun slot hslot => ?_
    have hs : q.slot? = some slot := by simpa [slots, eq_comm] using hslot
    obtain ⟨pl, hj, -⟩ := (sound.owning hq).slot (i := slot.1) (h := slot.2) hs
    rw [contents, contents, hold slot.1 pl hj]
  · refine Option.map_congr fun v hv => ?_
    obtain ⟨pl, hj, -⟩ := viewing.viewed.shown v (Registry.mem_values_of_find? hv)
    rw [plainView, plainView, seen, seen, hold v.1 pl hj]
  · exact viewing.viewed.addPool (p := s.world.newPool config) rfl
      (congrArg PlainPool.readers hnew) (congrArg PlainPool.writers hnew)

end Session

namespace StepM

open Session

section Steps

variable (sound : s.Sound True) (viewing : s.Viewing)

include sound viewing

/-! ## Pools -/

theorem makePool_agrees (config : PoolConfig) :
    Agrees (finish ((makePool config).exec s)) (s.plain.perform (.makePool config)) := by
  obtain ⟨hplain, hviewing⟩ := plain_addPool sound viewing config
  obtain ⟨events, -, heq⟩ := addPool_eq s.world config
  have hnew : (s.world.addPool config).2.pool? (s.world.addPool config).1 =
      some (s.world.newPool config) := by
    rw [heq, pool?_append (p := s.world.newPool config) rfl, if_pos rfl]
  unfold makePool
  rw [exec_bind, exec_get]
  simp only
  rw [exec_bind, exec_set]
  simp only
  rw [exec_pool_bind, hnew]
  refine ⟨?_, hplain, hviewing⟩
  show Answer.poolMade (s.world.newPool config).id config = .poolMade ⟨s.world.nextId⟩ config
  rw [newPool_id]

omit sound in
theorem reserve_agrees (n : Nat) :
    Agrees (finish ((reserve i n).exec s)) (s.plain.perform (.reserve i n)) := by
  unfold reserve
  rw [exec_poolPosition_bind, PlainSession.perform_reserve, found_pool]
  cases hi : s.world.pool? i with
  | none => exact ⟨rfl, rfl, viewing⟩
  | some pl =>
    obtain ⟨events, -, heq⟩ := World.reserve_eq hi n
    obtain ⟨reserved, hreserved⟩ := pl.reserve_eq n
    have hcontents : (pl.reserve n).contents = pl.contents := by
      rw [hreserved]
      rfl
    have hblock : (pl.reserve n).block = pl.block := by
      rw [hreserved]
      rfl
    obtain ⟨hcounted, -⟩ := plain_counted (s := s) s.views.values hi hcontents hblock
    simp only
    rw [exec_bind, exec_modify]
    simp only [heq]
    refine ⟨rfl, hcounted.trans ?_, viewing.ascending, ?_⟩
    · rw [plain_setPool_self hi (Pool.plain_reserve n)]
      rfl
    · have vw : (s.world.setPool i (pl.reserve n)).Viewed s.views.values := by
        rw [hreserved]
        exact viewing.viewed.setPool hi rfl rfl (Nat.le_refl _)
      exact vw.of_pools rfl

/-! ## Buffers -/

omit sound in
theorem onBuffer_agrees (f : Bytes → Bytes) :
    Agrees (finish ((onBuffer b f).exec s)) (.done, s.plain.fill b (f (s.plain.buffers b))) :=
  ⟨rfl, plain_fill _, viewing.ascending, viewing.viewed⟩

/-! ## Parts of a particle -/

/-- What has no part in the slot can be changed freely. -/
theorem relabel_agrees {f : Particle dim spacedim → Particle dim spacedim}
    {g : PlainParticle dim spacedim → PlainParticle dim spacedim}
    (hpool : ∀ p, (f p).pool = p.pool) (hhandle : ∀ p, (f p).handle = p.handle)
    (hplain : ∀ p, (f p).plain s.views.values s.world = g (p.plain s.views.values s.world)) :
    Agrees (finish ((revise key fun p => return f p).exec s))
      (s.plain.revise key fun q => .ok (g q, s.plain.pools)) := by
  refine revise_agrees sound viewing (fun p hp => ?_) fun p _ => ?_
  · exact settles_ok rfl (madeFrom_self (sound.placed hp) (hpool p) (hhandle p))
  · refine mirrors_ok rfl ?_
    rw [image, hplain]
    rfl

theorem releaseSlot_agrees :
    Agrees (finish ((revise key (·.releaseSlot)).exec s))
      (s.plain.revise key fun q => .ok (q.stripped, q.release s.plain.pools)) :=
  revise_agrees sound viewing
    (fun _ hp => releaseSlot_settles sound.wellFormed (sound.placed hp))
    fun _ hp => releaseSlot_mirrors sound.wellFormed (sound.owning hp)

/-! ## All steps -/

/-- **One step.** A session and its plain session answer alike, and stay alike. -/
theorem ofStep_agrees (step : Step dim spacedim) (hvalue : step.isOfParticles = true) :
    Agrees (finish ((ofStep step).exec s)) (s.plain.perform step) := by
  cases step with
  | makePool config => exact makePool_agrees sound viewing config
  | takePoolId => exact ⟨rfl, rfl, viewing.ascending, viewing.viewed.of_pools rfl⟩
  | reserve i n => exact reserve_agrees viewing n
  | openView dest i name writable =>
    cases name with
    | kept key => cases hvalue
    | ofParticle key => exact openView_agrees sound viewing
  | readView v => exact readView_agrees sound viewing
  | writeView v values => exact writeView_agrees sound viewing values
  | closeView v => exact closeView_agrees viewing
  | setBuffer b data => exact onBuffer_agrees viewing fun _ => data
  | truncateBuffer b n => exact onBuffer_agrees viewing (·.take n)
  | patchBuffer b start data => exact onBuffer_agrees viewing (patch start data)
  | appendBuffer b dest => exact onBuffer_agrees viewing (· ++ s.bytes b)
  | readBuffer b => exact ⟨rfl, rfl, viewing⟩
  | make p => exact make_agrees sound viewing rfl rfl
  | makeAt p location reference id => exact make_agrees sound viewing rfl rfl
  | decode p b from? => exact decode_agrees sound viewing from?
  | copy p dest => exact copy_agrees sound viewing
  | copyFrom p source => exact copyFrom_agrees sound viewing source
  | take p dest => exact take_agrees sound viewing
  | drop p => exact drop_agrees sound viewing
  | encode p b => exact encode_agrees sound viewing
  | update p b => exact update_agrees sound viewing
  | save p b chunk room => exact save_agrees sound viewing chunk room
  | load p b chunk => exact load_agrees sound viewing chunk
  | setLocation p location =>
    exact relabel_agrees sound viewing (fun _ => rfl) (fun _ => rfl) fun _ => rfl
  | setReference p reference =>
    exact relabel_agrees sound viewing (fun _ => rfl) (fun _ => rfl) fun _ => rfl
  | setId p id =>
    exact relabel_agrees sound viewing (fun _ => rfl) (fun _ => rfl) fun _ => rfl
  | releaseSlot p => exact releaseSlot_agrees sound viewing
  | look p => exact ⟨rfl, rfl, viewing⟩
  | moveTo p i => exact moveTo_agrees sound viewing i
  | setValues p values => exact setValues_agrees sound viewing p values
  | setValuesFromView p v => exact setValuesFromView_agrees sound viewing v
  | overwrite p values => exact overwrite_agrees sound viewing values
  | keys p =>
    simp only [ofStep]
    rw [exec_particle_bind, PlainSession.perform_keys, found_particle]
    cases s.particles.find? p <;> exact ⟨rfl, rfl, viewing⟩
  | encodeBatch keys b => exact encodeBatch_agrees sound viewing keys
  | decodeBatch b from? first => exact decodeBatch_agrees sound viewing from? first
  | _ => cases hvalue

end Steps

end StepM

namespace Session

theorem agrees_perform (sound : s.Sound True) (viewing : s.Viewing) {step : Step dim spacedim}
    (hvalue : step.isOfParticles = true) : Agrees (s.perform step) (s.plain.perform step) := by
  rw [perform_eq]
  exact ofStep_agrees sound viewing step hvalue

/-- A step of particles asks for no slot by a bare handle. -/
theorem not_isBare_of_isOfParticles {step : Step dim spacedim} (hvalue : step.isOfParticles = true) :
    step.isBare = false := by
  cases step <;> first | rfl | cases hvalue

/-- **All steps.** What agrees at each step agrees all along a run. -/
theorem agrees_run {steps : List (Step dim spacedim)} (sound : s.Sound True) (viewing : s.Viewing)
    (hvalues : ∀ step ∈ steps, step.isOfParticles = true) :
    (s.run steps).1.map Answer.veiled = (s.plain.run steps).1 ∧
      (s.run steps).2.plain = (s.plain.run steps).2 ∧
      (s.run steps).2.Sound True ∧ (s.run steps).2.Viewing := by
  induction steps generalizing s with
  | nil => exact ⟨rfl, rfl, sound, viewing⟩
  | cons step rest ih =>
    have hvalue := hvalues step List.mem_cons_self
    obtain ⟨hanswer, hplain, hviewing⟩ := agrees_perform sound viewing hvalue
    obtain ⟨hanswers, hplain', sound', hviewing'⟩ := ih
      (sound_perform sound step fun _ => not_isBare_of_isOfParticles hvalue) hviewing
      fun later hlater => hvalues later (List.mem_cons_of_mem _ hlater)
    rw [hplain] at hanswers hplain'
    refine ⟨?_, hplain', sound', hviewing'⟩
    show (s.perform step).1.veiled :: ((s.perform step).2.run rest).1.map Answer.veiled =
      (s.plain.perform step).1 :: ((s.plain.perform step).2.run rest).1
    rw [hanswer, hanswers]

/-! ## What can be seen -/

theorem plain_empty : plain ({} : Session dim spacedim) = {} := by
  refine PlainSession.ext rfl rfl (funext fun _ => ?_) (funext fun _ => ?_) (funext fun _ => ?_) <;>
    rfl

/-- The particle under a key, with the values that are in its slot. -/
def shown? (s : Session dim spacedim) (key : Nat) : Option (PlainParticle dim spacedim) :=
  (s.particles.find? key).map (Particle.plain [] s.world)

theorem shown?_plain : s.shown? key = s.plain.shown? key := by
  show _ = ((s.particles.find? key).map _).map _
  rw [Option.map_map]
  refine Option.map_congr fun p _ => ?_
  rw [Function.comp_apply, Particle.plain, Particle.plain, PlainParticle.unlent]
  cases p.slot? with
  | none => rfl
  | some slot =>
    simp only [Option.bind_some]
    cases s.world.contents slot.1 slot.2 <;> rfl

theorem snapshot?_plain (sound : s.Sound True) :
    (s.snapshot? key).map Snapshot.veiled = s.plain.snapshot? key := by
  show ((s.particles.find? key).map _).map _ = ((s.particles.find? key).map _).map _
  rw [Option.map_map, Option.map_map]
  refine Option.map_congr fun p hp => ?_
  exact Particle.snapshot_plain sound.wellFormed (sound.owning hp)

/-- **Particles with pools are particles that own their values.** Whatever is done with
particles and the views of them, in any order, a plain session does the same: it gives
the same answers, shows the same of each particle, has the same bytes in each buffer, and
counts the same particles and views for each pool. So a further step changes no
particle but those that it names, although all particles of a pool share its scalars. -/
theorem run_refines_plain (steps : List (Step dim spacedim))
    (hvalues : ∀ step ∈ steps, step.isOfParticles = true) :
    let s := (run ({} : Session dim spacedim) steps).2
    let m := (PlainSession.run ({} : PlainSession dim spacedim) steps).2
    (run ({} : Session dim spacedim) steps).1.map Answer.veiled =
        (PlainSession.run ({} : PlainSession dim spacedim) steps).1 ∧
      (∀ key, (s.snapshot? key).map Snapshot.veiled = m.snapshot? key) ∧
      s.bytes = m.buffers ∧ s.world.pools.map Pool.plain = m.pools ∧
      ∀ step key, step.isOfParticles = true → ¬ m.Writes step key →
        (s.perform step).2.shown? key = s.shown? key := by
  obtain ⟨hanswers, hplain, sound, viewing⟩ := agrees_run sound_empty viewing_empty hvalues
  rw [plain_empty] at hanswers hplain
  intro s m
  have hm : s.plain = m := hplain
  refine ⟨hanswers, fun key => ?_, ?_, ?_, fun step key hvalue hapart => ?_⟩
  · rw [← hm]
    exact snapshot?_plain sound
  · rw [← hm]
    rfl
  · rw [← hm]
    rfl
  · rw [shown?_plain, (agrees_perform sound viewing hvalue).session_eq, shown?_plain, hm]
    exact PlainSession.perform_apart hapart

/-- A run in which a particle is copied, and the slot of the copy is given back and used again
by another particle, whose values are then set through a view. -/
theorem run_refines_plain_of_reuse :
    let steps : List (Step 1 1) :=
      [.makePool { stride := 1 }, .make 0, .moveTo 0 0, .setValues 0 [⟨1⟩], .copy 0 1, .drop 1,
        .make 2, .moveTo 2 0, .setValues 2 [⟨2⟩], .openView 0 0 (.ofParticle 2) true,
        .writeView 0 [⟨3⟩], .closeView 0]
    let s := (run {} steps).2
    (run {} steps).1.map Answer.veiled = (PlainSession.run {} steps).1 ∧
      (s.perform (.setValues 2 [.zero])).2.shown? 0 = s.shown? 0 := by
  intro steps s
  have hrun := run_refines_plain steps (by decide)
  exact ⟨hrun.1, hrun.2.2.2.2 (.setValues 2 [.zero]) 0 rfl fun he => by cases he⟩

end Session

end ParticleStore
