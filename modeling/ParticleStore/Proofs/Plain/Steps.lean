/-
ParticleStore.Proofs.Plain.Steps — steps of a session as steps of a plain one.

A step of a session `Agrees` with a step of its plain session if the answers are the same,
up to handles, and the session afterwards has the plain session afterwards. Each step
of particles agrees: what it is refused for is read off the plain session, and what it
changes is what the plain step changes.
-/
import ParticleStore.Proofs.Plain.Sessions

namespace ParticleStore

open ParticleStore.Action Particle World StepM

variable {dim spacedim : Nat} {s : Session dim spacedim} {w' : World} {key dest i b : Nat}
  {p p' : Particle dim spacedim}

/-- The answer, but for the handles that it shows. -/
def Answer.veiled : Answer dim spacedim → Answer dim spacedim
  | .batchDecoded particles length => .batchDecoded (particles.map Snapshot.veiled) length
  | answer => answer

namespace Session

/-- The same answer, up to handles, and a session with the plain session given. -/
structure Agrees (actual : Answer dim spacedim × Session dim spacedim)
    (expected : Answer dim spacedim × PlainSession dim spacedim) : Prop where
  answer_eq : actual.1.veiled = expected.1
  session_eq : actual.2.plain = expected.2
  viewing : actual.2.Viewing

/-! ## Looking up -/

theorem found_particle (f : PlainParticle dim spacedim →
      Answer dim spacedim × PlainSession dim spacedim) :
    s.plain.found "particle" (s.plain.particles key) f =
      match s.particles.find? key with
      | some p => f (p.plain s.views.values s.world)
      | none => (.unknown "particle", s.plain) := by
  show s.plain.found "particle" ((s.particles.find? key).map _) f = _
  cases s.particles.find? key <;> rfl

theorem found_pool (f : PlainPool → Answer dim spacedim × PlainSession dim spacedim) :
    s.plain.found "pool" s.plain.pools[i]? f =
      match s.world.pool? i with
      | some pl => f pl.plain
      | none => (.unknown "pool", s.plain) := by
  show s.plain.found "pool" s.world.plain[i]? f = _
  rw [getElem?_plain]
  cases s.world.pool? i <;> rfl

theorem found_view (f : PlainView → Answer dim spacedim × PlainSession dim spacedim) :
    s.plain.found "view" (s.plain.views key) f =
      match s.views.find? key with
      | some v => f (plainView s.world v)
      | none => (.unknown "view", s.plain) := by
  show s.plain.found "view" ((s.views.find? key).map _) f = _
  cases s.views.find? key <;> rfl

/-- A pool is there if its plain pool is, where one is asked for. -/
theorem isSome_pools {from? : Option Nat} :
    (∀ i, from? = some i → (s.plain.pools[i]?).isSome) ↔
      ∀ i, from? = some i → (s.world.pool? i).isSome := by
  refine forall_congr' fun i => ?_
  rw [← isSome_getElem?_plain]
  rfl

end Session

namespace StepM

open Session

section Steps

variable (sound : s.Sound True) (viewing : s.Viewing)

include sound viewing

/-! ## Particles -/

theorem revise_agrees
    {f : Particle dim spacedim → Action ParticleError (Particle dim spacedim)}
    {g : PlainParticle dim spacedim → Attempt ParticleError (PlainParticle dim spacedim × PlainPools)}
    (hsettles : ∀ p, s.particles.find? key = some p →
      (f p).Settles s.world fun p' w' => p'.MadeFrom p.slots s.world w')
    (hmirrors : ∀ p, s.particles.find? key = some p →
      (f p).Mirrors s.world (image s.views.values) (g (p.plain s.views.values s.world))) :
    Agrees (finish ((revise key f).exec s)) (s.plain.revise key g) := by
  unfold revise PlainSession.revise
  rw [exec_particle_bind, found_particle]
  cases hp : s.particles.find? key with
  | none => exact ⟨rfl, rfl, viewing⟩
  | some p =>
    obtain ⟨cause, p', w', he, hr⟩ := hmirrors p hp
    simp only [hr]
    rw [exec_actOnParticle_bind, he]
    cases cause with
    | some e => exact ⟨rfl, rfl, viewing⟩
    | none =>
      obtain ⟨hplain, hviewing⟩ := plain_revised sound viewing hp ((hsettles p hp).ok he)
      exact ⟨rfl, hplain, hviewing⟩

/-- A particle that comes out of nothing is stored. -/
theorem plain_born (key : Nat) (made : p.MadeFrom [] s.world w') :
    (store key p).exec { s with world := w' } =
        (.ok ⟨⟩, ({ s with world := w' } : Session dim spacedim).stored key p) ∧
      (({ s with world := w' } : Session dim spacedim).stored key p).plain =
        { s.plain with pools := w'.plain }.store key (p.plain s.views.values w') ∧
      (({ s with world := w' } : Session dim spacedim).stored key p).Viewing := by
  have t := sound.2.born made
  obtain ⟨hplain, hviewing⟩ := plain_evolved viewing made.trade.evolves
    fun q hq => sound.2.frame [] made.trade hq
  obtain ⟨hstored, hviewing', -⟩ := plain_stored (s := { s with world := w' }) key []
    sound.1 (by simpa using t) hviewing
  refine ⟨exec_store_of_tenancy (s := { s with world := w' }) key t (List.subset_cons_self _ _), ?_,
    hviewing'⟩
  rw [hstored, hplain]

theorem make_agrees (hhandle : p.handle = .invalid) (hpool : p.pool = none) :
    Agrees (finish ((storeNew key p).exec s))
      (.done, s.plain.store key ⟨p.location, p.reference, p.id, p.pool, none⟩) := by
  have made : p.MadeFrom [] s.world s.world := madeFrom_invalid hhandle fun i hi => by
    rw [hpool] at hi
    cases hi
  obtain ⟨hexec, hplain, hviewing⟩ := plain_born sound viewing key made
  rw [plain_of_invalid hhandle] at hplain
  unfold storeNew
  rw [exec_bind, hexec]
  exact ⟨rfl, hplain, hviewing⟩

theorem copy_agrees :
    Agrees (finish ((copy key dest).exec s)) (s.plain.perform (.copy key dest)) := by
  unfold copy
  rw [exec_particle_bind, PlainSession.perform_copy, found_particle]
  cases hp : s.particles.find? key with
  | none => exact ⟨rfl, rfl, viewing⟩
  | some p =>
    have owning := sound.owning hp
    obtain ⟨cause, p', w', he, hr⟩ := copy_mirrors viewing.viewed sound.wellFormed owning
    have hr' : (p.plain s.views.values s.world).copy s.plain.pools = _ := hr
    simp only [hr']
    rw [exec_actOnParticle_bind, he]
    cases cause with
    | some e => exact ⟨rfl, rfl, viewing⟩
    | none =>
      have made := (copy_settles sound.wellFormed owning.toPlaced).ok he
      obtain ⟨hexec, hplain, hviewing⟩ := plain_born sound viewing dest made
      simp only [decided_none]
      rw [exec_bind, hexec]
      exact ⟨rfl, hplain, hviewing⟩

theorem copyFrom_agrees (source : Nat) :
    Agrees (finish ((ofStep (.copyFrom key source) : StepM dim spacedim _).exec s))
      (s.plain.perform (.copyFrom key source)) := by
  simp only [ofStep]
  rw [exec_particle_bind, PlainSession.perform_copyFrom, found_particle]
  cases hother : s.particles.find? source with
  | none => exact ⟨rfl, rfl, viewing⟩
  | some other =>
    have source_owning := sound.owning hother
    refine revise_agrees sound viewing (fun p hp => ?_) fun p hp => ?_
    · exact copyFrom_settles sound.wellFormed (sound.placed hp) source_owning.toPlaced
    · exact copyFrom_mirrors viewing.viewed sound.wellFormed (sound.owning hp)
        source_owning

theorem take_agrees :
    Agrees (finish ((take key dest).exec s)) (s.plain.perform (.take key dest)) := by
  unfold take
  rw [exec_particle_bind, PlainSession.perform_take, found_particle]
  cases hp : s.particles.find? key with
  | none => exact ⟨rfl, rfl, viewing⟩
  | some p =>
    have t := (sound.split hp).taken
    have hperm := (Registry.values_insert sound.1 key p.take.2).symm.cons p.take.1
    have hasc := Registry.ascending_insert sound.1 key p.take.2
    obtain ⟨hstored, hviewing, -⟩ := plain_stored dest []
      (s := { s with particles := s.particles.insert key p.take.2 }) hasc
      (by simpa using t.perm hperm) ⟨viewing.ascending, viewing.viewed⟩
    simp only
    rw [exec_putBack_bind, exec_bind, exec_store_of_tenancy
      (s := { s with particles := s.particles.insert key p.take.2 }) dest (by exact t.perm hperm)
      (List.subset_cons_self _ _)]
    refine ⟨rfl, hstored.trans ?_, hviewing⟩
    rw [plain_put]
    have hleft : p.take.2.plain s.views.values s.world =
        (p.plain s.views.values s.world).stripped := plain_of_invalid rfl
    rw [hleft]
    rfl

theorem drop_agrees :
    Agrees (finish ((drop key).exec s)) (s.plain.perform (.drop key)) := by
  have hfound : s.plain.particles key =
      (s.particles.find? key).map (Particle.plain s.views.values s.world) := rfl
  unfold drop
  rw [exec_bind, exec_get, PlainSession.perform_drop, hfound]
  simp only
  cases hp : s.particles.find? key with
  | none => exact ⟨rfl, rfl, viewing⟩
  | some p =>
    obtain ⟨hplain, hviewing⟩ := plain_dropped sound viewing hp
    have hexec := exec_drop (ε := ParticleError) sound.wellFormed (sound.placed hp)
    simp only
    rw [exec_bind, exec_set]
    simp only
    rw [exec_actOnParticle_bind]
    simp only [hexec]
    exact ⟨rfl, hplain, hviewing⟩

theorem moveTo_agrees (target : Nat) :
    Agrees (finish ((ofStep (.moveTo key target) : StepM dim spacedim _).exec s))
      (s.plain.perform (.moveTo key target)) := by
  simp only [ofStep]
  rw [exec_poolPosition_bind, PlainSession.perform_moveTo, found_pool]
  cases ht : s.world.pool? target with
  | none => exact ⟨rfl, rfl, viewing⟩
  | some tg =>
    refine revise_agrees sound viewing (fun p hp => ?_) fun p hp => ?_
    · exact moveTo_settles sound.wellFormed (sound.placed hp) ht
    · exact moveTo_mirrors viewing.viewed sound.wellFormed (sound.owning hp) ht

theorem setValues_agrees (key : Nat) (new : List Scalar) :
    Agrees (finish ((revise key (·.setValues new)).exec s))
      (s.plain.revise key (·.setValues s.plain.pools new)) :=
  revise_agrees sound viewing
    (fun _ hp => setValues_settles _ sound.wellFormed (sound.placed hp))
    fun _ hp => setValues_mirrors viewing.viewed sound.wellFormed (sound.owning hp)

theorem setValuesFromView_agrees (v : Nat) :
    Agrees (finish ((setValuesFromView key v).exec s))
      (s.plain.perform (.setValuesFromView key v)) := by
  have hrevise := fun new => setValues_agrees sound viewing key new
  unfold setValuesFromView
  rw [exec_particle_bind, PlainSession.perform_setValuesFromView, found_particle]
  cases hp : s.particles.find? key with
  | none => exact ⟨rfl, rfl, viewing⟩
  | some p =>
    simp only
    rw [exec_bind, exec_viewed_eq viewing sound, found_view]
    cases s.views.find? v with
    | none => exact ⟨rfl, rfl, viewing⟩
    | some view =>
      have hsame := hrevise (s.world.seen view)
      unfold revise at hsame
      rw [exec_particle_bind, hp] at hsame
      exact hsame

theorem overwrite_agrees (new : List Scalar) :
    Agrees (finish ((ofStep (.overwrite key new) : StepM dim spacedim _).exec s))
      (s.plain.perform (.overwrite key new)) := by
  simp only [ofStep]
  rw [exec_particle_bind, PlainSession.perform_overwrite, found_particle]
  cases hp : s.particles.find? key with
  | none => exact ⟨rfl, rfl, viewing⟩
  | some p =>
    have owning := sound.owning hp
    obtain ⟨cause, values, w', he, hr⟩ :=
      overwrite_mirrors viewing.viewed sound.wellFormed new owning
    have hr' : (p.plain s.views.values s.world).overwrite s.plain.pools new = _ := hr
    simp only [hr']
    rw [exec_actOnParticle_bind, he]
    cases cause with
    | some e => exact ⟨rfl, rfl, viewing⟩
    | none =>
      have htrade := (overwrite_settles new sound.wellFormed owning.toPlaced).ok he
      obtain ⟨hplain, hviewing⟩ := plain_revised sound viewing hp
        ⟨htrade, owning.toPlaced.evolves htrade.evolves⟩
      refine ⟨rfl, ?_, hviewing.ascending, hviewing.viewed⟩
      -- the particle that is put back is the one that is there
      refine Eq.trans ?_ hplain
      refine PlainSession.ext rfl rfl ?_ rfl rfl
      show Option.map _ ∘ s.particles.find? = Option.map _ ∘ (s.particles.insert key p).find?
      rw [Registry.find?_insert, ← hp, Function.update_eq_self]
      rfl

/-! ## Bytes -/

theorem decode_agrees (from? : Option Nat) :
    Agrees (finish ((decode key b from?).exec s)) (s.plain.decode key b from?) := by
  unfold decode PlainSession.decode
  rw [exec_positions_bind]
  by_cases hpool : ∀ i, from? = some i → (s.world.pool? i).isSome
  · rw [if_pos hpool, if_pos (isSome_pools.mpr hpool), exec_buffer_bind, exec_act_bind]
    have hbytes : s.plain.buffers b = s.bytes b := rfl
    rw [hbytes]
    cases hd : (Record.decoder dim spacedim).run (s.bytes b) with
    | error cause =>
      rw [exec_ofBytes_error hd]
      exact ⟨rfl, rfl, viewing⟩
    | ok result =>
      obtain ⟨r, rest⟩ := result
      obtain ⟨cause, p, w', he, hr⟩ :=
        ofRecord_mirrors (r := r) viewing.viewed sound.wellFormed hpool
      have hr' : PlainParticle.ofRecord s.plain.pools from? r = _ := hr
      rw [exec_ofBytes_ok hd, exec_map, he]
      simp only [hr']
      cases cause with
      | some e => exact ⟨rfl, rfl, viewing⟩
      | none =>
        have made := (ofRecord_settles (r := r) sound.wellFormed
          fun i hi => Option.isSome_iff_exists.mp (hpool i hi)).ok he
        obtain ⟨hexec, hplain, hviewing⟩ := plain_born
          (s := { s with buffers := s.buffers.insert b rest }) sound
          ⟨viewing.ascending, viewing.viewed⟩ key made
        simp only [decided_none]
        rw [exec_keepBuffer_bind, exec_bind]
        simp only [hexec]
        refine ⟨rfl, hplain.trans ?_, hviewing⟩
        rw [plain_fill]
        rfl
  · rw [if_neg hpool, if_neg fun h => hpool (isSome_pools.mp h)]
    exact ⟨rfl, rfl, viewing⟩

theorem encode_agrees :
    Agrees (finish ((encode key b).exec s)) (s.plain.encode key b) := by
  unfold encode PlainSession.encode
  rw [exec_particle_bind, found_particle]
  cases hp : s.particles.find? key with
  | none => exact ⟨rfl, rfl, viewing⟩
  | some p =>
    have hsame := Particle.encode_plain sound.wellFormed (sound.owning hp) s.views.values
    have hsame' : (p.plain s.views.values s.world).encode s.plain.pools = _ := hsame.symm
    simp only [hsame']
    rw [exec_buffer_bind, exec_world_bind]
    cases p.encode s.world with
    | error failure => exact ⟨rfl, rfl, viewing⟩
    | ok bytes => exact ⟨rfl, plain_fill _, viewing.ascending, viewing.viewed⟩

theorem save_agrees (chunk room : Option Nat) :
    Agrees (finish ((save key b chunk room).exec s)) (s.plain.save key b chunk room) := by
  unfold save PlainSession.save
  rw [exec_particle_bind, found_particle]
  cases hp : s.particles.find? key with
  | none => exact ⟨rfl, rfl, viewing⟩
  | some p =>
    have hsame := Particle.save_plain sound.wellFormed (sound.owning hp) s.views.values
      chunk room
    have hsame' : (p.plain s.views.values s.world).save s.plain.pools chunk room = _ := hsame.symm
    simp only [hsame']
    exact ⟨rfl, plain_fill _, viewing.ascending, viewing.viewed⟩

theorem update_agrees :
    Agrees (finish ((update key b).exec s)) (s.plain.update key b) := by
  unfold update PlainSession.update
  rw [exec_particle_bind, found_particle]
  cases hp : s.particles.find? key with
  | none => exact ⟨rfl, rfl, viewing⟩
  | some p =>
    have owning := sound.owning hp
    have hbytes : s.plain.buffers b = s.bytes b := rfl
    simp only [hbytes]
    rw [exec_buffer_bind, exec_act_bind]
    cases hd : (Record.decoder dim spacedim).run (s.bytes b) with
    | error cause =>
      rw [exec_update_error hd]
      exact ⟨rfl, rfl, viewing⟩
    | ok result =>
      obtain ⟨r, rest⟩ := result
      obtain ⟨cause, p', w', he, hr⟩ := update_mirrors viewing.viewed sound.wellFormed owning hd
      have hr' : (p.plain s.views.values s.world).update s.plain.pools r = _ := hr
      simp only [hr', he]
      cases cause with
      | some e => exact ⟨rfl, rfl, viewing⟩
      | none =>
        have made := (update_settles _ sound.wellFormed owning.toPlaced).ok he
        obtain ⟨hplain, hviewing⟩ := plain_revised
          (s := { s with buffers := s.buffers.insert b rest }) sound
          ⟨viewing.ascending, viewing.viewed⟩ hp made
        refine ⟨rfl, hplain.trans ?_, hviewing⟩
        rw [plain_fill]
        rfl

theorem load_agrees (chunk : Option Nat) :
    Agrees (finish ((load key b chunk).exec s)) (s.plain.load key b chunk) := by
  unfold load PlainSession.load
  rw [exec_particle_bind, found_particle]
  cases hp : s.particles.find? key with
  | none => exact ⟨rfl, rfl, viewing⟩
  | some p =>
    have owning := sound.owning hp
    obtain ⟨cause, p', w', left, he, hr⟩ :=
      load_mirrors viewing.viewed sound.wellFormed owning chunk (s.bytes b)
    have hr' : (p.plain s.views.values s.world).load s.plain.pools chunk (s.plain.buffers b) = _ := hr
    obtain ⟨result, left', w'', he', -, hpost⟩ :=
      load_settles sound.wellFormed owning.toPlaced chunk (s.bytes b)
    rw [he] at he'
    simp only [hr']
    rw [exec_buffer_bind, exec_bind, exec_modifyGet]
    simp only [he]
    cases cause with
    | some e => exact ⟨rfl, plain_fill _, viewing.ascending, viewing.viewed⟩
    | none =>
      cases he'
      obtain ⟨hplain, hviewing⟩ := plain_revised
        (s := { s with buffers := s.buffers.insert b left }) sound
        ⟨viewing.ascending, viewing.viewed⟩ hp hpost
      refine ⟨rfl, hplain.trans ?_, hviewing⟩
      rw [plain_fill]
      rfl

end Steps

end StepM

end ParticleStore
