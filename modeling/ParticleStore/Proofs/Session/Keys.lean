/-
ParticleStore.Proofs.Session.Keys — keys that an index can rely on.

An index over the particles of a session is right for as long as no particle moves without
its knowledge. What a step does to a particle that it does not end is in its answer and in
its name: only the steps that are told to set coordinates, and those that overwrite the
particle with the contents of another one and succeed, may change the keys
(`keys_perform`). A step that fails changes none, even where it had read new coordinates
before it failed.
-/
import ParticleStore.Proofs.Particle.Keys
import ParticleStore.Proofs.Session.Failure
import ParticleStore.Proofs.Session.Keeping

namespace ParticleStore

open ParticleStore.Action Particle World StepM

variable {dim spacedim : Nat} {s : Session dim spacedim} {key other dest b : Nat}
  {p : Particle dim spacedim} {step : Step dim spacedim} {answer : Answer dim spacedim}

/-! ## What becomes of a particle -/

namespace Step

/-- The step, with this answer, ends the particle under the key: it drops it, or stores another one
in its place. -/
def ends (key : Nat) (step : Step dim spacedim) (answer : Answer dim spacedim) : Bool :=
  match step with
  | .make p | .makeAt p .. | .drop p => key == p
  | .decode p .. | .copy _ p | .take _ p => key == p && !answer.isFailure
  | .decodeBatch _ _ first =>
    match answer with
    | .batchDecoded shown _ => first ≤ key && key < first + shown.length
    | _ => false
  | _ => false

/-- The step, with this answer, overwrites the particle under the key with the contents of
another one. -/
def overwrites (key : Nat) (step : Step dim spacedim) (answer : Answer dim spacedim) : Bool :=
  match step with
  | .update p _ | .load p .. | .copyFrom p _ => key == p && !answer.isFailure
  | _ => false

/-- The step sets the reference location of the particle under the key. -/
def setsReference (key : Nat) : Step dim spacedim → Bool
  | .setReference p _ => key == p
  | _ => false

/-- The step sets the location of the particle under the key. -/
def setsLocation (key : Nat) : Step dim spacedim → Bool
  | .setLocation p _ => key == p
  | _ => false

end Step

namespace Session

/-- The particle under the key lives through the steps: none of them ends it. -/
def Lives (s : Session dim spacedim) (key : Nat) (steps : List (Step dim spacedim)) : Prop :=
  ∀ call ∈ steps.zip (s.run steps).1, call.1.ends key call.2 = false

/-- No step tells the particle under the key to change its spatial key. -/
def KeepsReference (s : Session dim spacedim) (key : Nat) (steps : List (Step dim spacedim)) : Prop :=
  ∀ call ∈ steps.zip (s.run steps).1,
    call.1.setsReference key = false ∧ call.1.overwrites key call.2 = false

/-- No step tells the particle under the key to change its location. -/
def KeepsLocation (s : Session dim spacedim) (key : Nat) (steps : List (Step dim spacedim)) : Prop :=
  ∀ call ∈ steps.zip (s.run steps).1,
    call.1.setsLocation key = false ∧ call.1.overwrites key call.2 = false

end Session

/-! ## Steps on the particle -/

namespace StepM

/-- A change that is refused leaves the particle as it is. -/
theorem find?_revise {f : Particle dim spacedim → Action ParticleError (Particle dim spacedim)}
    (post : Particle dim spacedim → Prop) (hp : s.particles.find? key = some p)
    (hf : (f p).Yields post) (hself : post p) :
    ∃ p', ((revise key f).exec s).2.particles.find? key = some p' ∧ post p' := by
  unfold revise
  rw [exec_particle_of_some hp, exec_actOnParticle_bind]
  cases hexec : (f p).exec s.world with
  | mk result w' =>
    cases result with
    | error failure => exact ⟨p, hp, hself⟩
    | ok p' => exact ⟨p', Registry.find?_insert_self _ _ _, hf _ _ _ hexec⟩

theorem find?_setValuesFromView (v : Nat) (hp : s.particles.find? key = some p) :
    ∃ p', ((setValuesFromView key v).exec s).2.particles.find? key = some p' ∧ p.SameKeys p' := by
  obtain ⟨result, hviewed⟩ := exec_viewed (s := s) v
  unfold setValuesFromView
  rw [exec_particle_of_some hp, StepM.exec_bind, hviewed]
  cases result with
  | error answer => exact ⟨p, hp, .refl p⟩
  | ok values =>
    simp only
    rw [exec_actOnParticle_bind]
    cases hexec : (p.setValues values).exec s.world with
    | mk result w' =>
      cases result with
      | error failure => exact ⟨p, hp, .refl p⟩
      | ok p' => exact ⟨p', Registry.find?_insert_self _ _ _, yields_setValues p values _ _ _ hexec⟩

/-- A particle is stored, and the step answered. -/
theorem particles_stored (s : Session dim spacedim) (key : Nat) (p : Particle dim spacedim)
    (answer : Answer dim spacedim) :
    ((store key p >>= fun _ => pure answer).exec s).2.particles = s.particles.insert key p := by
  have hstore := particles_store s key p
  rw [StepM.exec_bind]
  cases hexec : (store key p).exec s with
  | mk result s' =>
    rw [hexec] at hstore
    cases result <;> exact hstore

theorem find?_stored (s : Session dim spacedim) (key : Nat) (p : Particle dim spacedim)
    (answer : Answer dim spacedim) :
    ((store key p >>= fun _ => pure answer).exec s).2.particles.find? key = some p := by
  rw [particles_stored, Registry.find?_insert_self]

/-- One particle stays under its key, and the moved one is stored, under the same key or another. -/
theorem particles_take (dest : Nat) (hp : s.particles.find? key = some p) :
    ((take key dest).exec s).2.particles =
      (s.particles.insert key p.take.2).insert dest p.take.1 := by
  unfold take
  rw [exec_particle_of_some hp]
  simp only
  rw [exec_putBack_bind]
  exact particles_stored _ _ _ _

/-! Overwriting leaves a particle under its key, whatever it comes to. -/

theorem exists_find?_copyFrom (source : Nat) (hp : s.particles.find? key = some p) :
    ∃ p', ((ofStep (.copyFrom key source) : StepM dim spacedim _).exec s).2.particles.find? key =
      some p' := by
  simp only [ofStep]
  rw [exec_particle_bind]
  cases s.particles.find? source with
  | none => exact ⟨p, hp⟩
  | some q =>
    obtain ⟨p', hp', -⟩ :=
      find?_revise (f := (·.copyFrom q)) (fun _ => True) hp (.of_true _) trivial
    exact ⟨p', hp'⟩

theorem exists_find?_update (hp : s.particles.find? key = some p) :
    ∃ p', ((update key b).exec s).2.particles.find? key = some p' := by
  unfold update
  rw [exec_particle_of_some hp, exec_buffer_bind, exec_act_bind]
  cases (p.update (s.bytes b)).exec s.world with
  | mk result w' =>
    cases result with
    | error failure => exact ⟨p, hp⟩
    | ok result => exact ⟨result.1, Registry.find?_insert_self _ _ _⟩

theorem exists_find?_load (chunk : Option Nat) (hp : s.particles.find? key = some p) :
    ∃ p', ((load key b chunk).exec s).2.particles.find? key = some p' := by
  unfold load
  rw [exec_particle_of_some hp, exec_buffer_bind, StepM.exec_bind, exec_modifyGet]
  obtain ⟨⟨outcome, rest⟩, w'⟩ := (p.load chunk (s.bytes b)).run s.world
  simp only
  rw [exec_keepBuffer_bind]
  cases outcome with
  | error failure => exact ⟨p, hp⟩
  | ok p' => exact ⟨p', Registry.find?_insert_self _ _ _⟩

end StepM

namespace Session

/-- Taking fails only where there is no particle. -/
theorem take_failure (sound : s.Sound False)
    (hfail : (s.perform (.take key dest)).1.isFailure = true) :
    (s.perform (.take key dest)).2 = s := by
  rw [perform_eq] at hfail ⊢
  simp only [ofStep] at hfail ⊢
  unfold StepM.take at hfail ⊢
  rw [exec_particle_bind] at hfail ⊢
  cases hp : s.particles.find? key with
  | none => rfl
  | some p =>
    have hstore := exec_store_of_tenancy (s := { s with
      particles := s.particles.insert key p.take.2 }) (p := p.take.1) dest (sound.taken hp)
        (List.subset_cons_self _ _)
    simp only [hp] at hfail
    rw [exec_putBack_bind] at hfail
    rw [StepM.exec_bind, hstore] at hfail
    cases hfail

/-- What a step, with this answer, may do to the keys of a particle that it does not end. -/
def KeysAfter (key : Nat) (step : Step dim spacedim) (answer : Answer dim spacedim)
    (p p' : Particle dim spacedim) : Prop :=
  step.overwrites key answer = false →
    (step.setsReference key = false → p'.reference = p.reference) ∧
    (step.setsLocation key = false → p'.location = p.location)

theorem keysAfter_of_sameKeys {p' : Particle dim spacedim} (same : p.SameKeys p') :
    KeysAfter key step answer p p' := fun _ => ⟨fun _ => same.reference_eq, fun _ => same.location_eq⟩

/-- **What a step does to the keys of a particle that it does not end.** -/
theorem keys_perform (sound : s.Sound False) (hp : s.particles.find? key = some p)
    (step : Step dim spacedim) (hlives : step.ends key (s.perform step).1 = false) :
    ∃ p', (s.perform step).2.particles.find? key = some p' ∧
      KeysAfter key step (s.perform step).1 p p' := by
  have same : (∃ p', ((ofStep step).exec s).2.particles.find? key = some p' ∧ p.SameKeys p') →
      ∃ p', (s.perform step).2.particles.find? key = some p' ∧
        KeysAfter key step (s.perform step).1 p p' := by
    rintro ⟨p', hp', hsame⟩
    exact ⟨p', by rw [perform_snd, hp'], keysAfter_of_sameKeys hsame⟩
  have kept : (s.perform step).2.particles.find? key = s.particles.find? key → ∃ p',
      (s.perform step).2.particles.find? key = some p' ∧
        KeysAfter key step (s.perform step).1 p p' :=
    fun hsame => ⟨p, hsame.trans hp, keysAfter_of_sameKeys (.refl p)⟩
  have failed : step.isFallible = true → (s.perform step).1.isFailure = true → ∃ p',
      (s.perform step).2.particles.find? key = some p' ∧
        KeysAfter key step (s.perform step).1 p p' :=
    fun hfallible hfail => kept (by rw [(sound.untouched step hfallible hfail).particles_eq])
  have overwritten : step.isFallible = true →
      ((s.perform step).1.isFailure = false → step.overwrites key (s.perform step).1 = true) →
      (∃ p', ((ofStep step).exec s).2.particles.find? key = some p') →
      ∃ p', (s.perform step).2.particles.find? key = some p' ∧
        KeysAfter key step (s.perform step).1 p p' := by
    rintro hfallible hover ⟨p', hp'⟩
    cases hfail : (s.perform step).1.isFailure with
    | true => exact failed hfallible hfail
    | false =>
      rw [← perform_snd] at hp'
      exact ⟨p', hp', fun hnot => by rw [hover hfail] at hnot; cases hnot⟩
  cases htouch : step.touches key with
  | false => exact kept (by rw [perform_snd, keeps_ofStep htouch])
  | true =>
    cases step with
    | make k => cases htouch.symm.trans hlives
    | makeAt k location reference id => cases htouch.symm.trans hlives
    | drop k => cases htouch.symm.trans hlives
    | decode k b from? =>
      obtain rfl := eq_of_beq htouch
      exact failed rfl (by simpa [Step.ends] using hlives)
    | copy source k =>
      obtain rfl := eq_of_beq htouch
      exact failed rfl (by simpa [Step.ends] using hlives)
    | take source k =>
      cases hdest : key == k with
      | true =>
        have hfail : (s.perform (.take source k)).1.isFailure = true := by
          simpa [Step.ends, hdest] using hlives
        exact kept (by rw [take_failure sound hfail])
      | false =>
        obtain rfl : key = source := by simpa [Step.touches, hdest] using htouch
        refine same ⟨p.take.2, ?_, (sameKeys_take p).2⟩
        have hparticles := particles_take k hp
        simp only [ofStep]
        rw [hparticles, Registry.find?_insert_of_ne _ _ (ne_of_beq_false hdest),
          Registry.find?_insert_self]
    | decodeBatch b from? first =>
      rcases perform_decodeBatch sound b from? first with
        ⟨answer, s', hperform, hsame, -⟩ | ⟨made, w₁, s₁, s', -, hsame, hstore, hperform⟩
      · exact kept (by rw [hperform, hsame])
      · rw [hperform] at hlives
        have hout : ¬ (first ≤ key ∧ key < first + made.length) := by
          simpa [Step.ends] using hlives
        have hkept := keeps_storeAll first made hout s₁
        rw [hstore] at hkept
        exact kept (by rw [hperform, hkept, hsame])
    | update k b =>
      obtain rfl := eq_of_beq htouch
      exact overwritten rfl (fun hfail => by simp [Step.overwrites, hfail]) (exists_find?_update hp)
    | load k b chunk =>
      obtain rfl := eq_of_beq htouch
      exact overwritten rfl (fun hfail => by simp [Step.overwrites, hfail])
        (exists_find?_load chunk hp)
    | copyFrom k source =>
      obtain rfl := eq_of_beq htouch
      exact overwritten rfl (fun hfail => by simp [Step.overwrites, hfail])
        (exists_find?_copyFrom source hp)
    | setLocation k location =>
      obtain rfl := eq_of_beq htouch
      obtain ⟨p', hp', hreference⟩ := find?_revise
        (f := fun p => return { p with location }) (·.reference = p.reference) hp (.of_pure rfl) rfl
      refine ⟨p', by rw [perform_snd]; exact hp', fun _ => ⟨fun _ => hreference, fun hset => ?_⟩⟩
      simp [Step.setsLocation] at hset
    | setReference k reference =>
      obtain rfl := eq_of_beq htouch
      obtain ⟨p', hp', hlocation⟩ := find?_revise
        (f := fun p => return { p with reference }) (·.location = p.location) hp (.of_pure rfl) rfl
      refine ⟨p', by rw [perform_snd]; exact hp', fun _ => ⟨fun hset => ?_, fun _ => hlocation⟩⟩
      simp [Step.setsReference] at hset
    | setId k id =>
      obtain rfl := eq_of_beq htouch
      exact same (find?_revise (f := fun p => return { p with id }) p.SameKeys hp
        (.of_pure ⟨rfl, rfl⟩) (.refl p))
    | releaseSlot k =>
      obtain rfl := eq_of_beq htouch
      exact same (find?_revise p.SameKeys hp (yields_releaseSlot p) (.refl p))
    | moveTo k i =>
      obtain rfl := eq_of_beq htouch
      refine same ?_
      simp only [ofStep]
      rw [exec_poolPosition_bind]
      cases s.world.pool? i with
      | none => exact ⟨p, hp, .refl p⟩
      | some pl => exact find?_revise p.SameKeys hp (yields_moveTo p i) (.refl p)
    | setValues k values =>
      obtain rfl := eq_of_beq htouch
      exact same (find?_revise p.SameKeys hp (yields_setValues p values) (.refl p))
    | setValuesFromView k v =>
      obtain rfl := eq_of_beq htouch
      exact same (find?_setValuesFromView v hp)
    | _ => cases htouch

/-! ## Runs -/

theorem lives_cons {rest : List (Step dim spacedim)} :
    s.Lives key (step :: rest) ↔
      step.ends key (s.perform step).1 = false ∧ (s.perform step).2.Lives key rest :=
  List.forall_mem_cons

theorem keepsReference_cons {rest : List (Step dim spacedim)} :
    s.KeepsReference key (step :: rest) ↔
      (step.setsReference key = false ∧ step.overwrites key (s.perform step).1 = false) ∧
        (s.perform step).2.KeepsReference key rest :=
  List.forall_mem_cons

theorem keepsLocation_cons {rest : List (Step dim spacedim)} :
    s.KeepsLocation key (step :: rest) ↔
      (step.setsLocation key = false ∧ step.overwrites key (s.perform step).1 = false) ∧
        (s.perform step).2.KeepsLocation key rest :=
  List.forall_mem_cons

/-- **What a run of steps does to the keys of a particle that lives through it.** -/
theorem keys_run (sound : s.Sound False) (hp : s.particles.find? key = some p)
    (steps : List (Step dim spacedim)) (hlives : s.Lives key steps) :
    ∃ p', (s.run steps).2.particles.find? key = some p' ∧
      (s.KeepsReference key steps → p'.reference = p.reference) ∧
      (s.KeepsLocation key steps → p'.location = p.location) := by
  induction steps generalizing s p with
  | nil => exact ⟨p, hp, fun _ => rfl, fun _ => rfl⟩
  | cons step rest ih =>
    obtain ⟨hstep, hrest⟩ := lives_cons.mp hlives
    obtain ⟨p₁, hp₁, hkeys⟩ := keys_perform sound hp step hstep
    obtain ⟨p', hp', hreference, hlocation⟩ := ih (sound.perform step) hp₁ hrest
    refine ⟨p', hp', fun hkeeps => ?_, fun hkeeps => ?_⟩
    · obtain ⟨⟨hset, hover⟩, hlater⟩ := keepsReference_cons.mp hkeeps
      exact (hreference hlater).trans ((hkeys hover).1 hset)
    · obtain ⟨⟨hset, hover⟩, hlater⟩ := keepsLocation_cons.mp hkeeps
      exact (hlocation hlater).trans ((hkeys hover).2 hset)

/-! ## New particles -/

/-- A copy is where the particle is that it was made of. -/
theorem find?_copy (hp : s.particles.find? key = some p)
    (hdone : (s.perform (.copy key dest)).1.isFailure = false) :
    ∃ q, (s.perform (.copy key dest)).2.particles.find? dest = some q ∧ p.SameKeys q := by
  rw [perform_snd]
  rw [perform_eq] at hdone
  simp only [ofStep] at hdone ⊢
  unfold StepM.copy at hdone ⊢
  rw [exec_particle_of_some hp, exec_actOnParticle_bind] at hdone ⊢
  cases hexec : p.copy.exec s.world with
  | mk result w' =>
    rw [hexec] at hdone
    cases result with
    | error failure => cases hdone
    | ok q =>
      exact ⟨q, find?_stored _ dest q _, yields_copy p _ _ _ hexec⟩

/-- A particle made of the record at the front of a buffer is where the one is that was written. -/
theorem find?_decode {w : World} {bytes rest : Bytes} (from? : Option Nat)
    (henc : p.encode w = .ok bytes) (hbuffer : s.bytes b = bytes ++ rest)
    (hdone : (s.perform (.decode key b from?)).1.isFailure = false) :
    ∃ q, (s.perform (.decode key b from?)).2.particles.find? key = some q ∧ p.SameKeys q := by
  rw [perform_snd]
  rw [perform_eq] at hdone
  simp only [ofStep] at hdone ⊢
  unfold StepM.decode at hdone ⊢
  rw [exec_positions_bind] at hdone ⊢
  by_cases hpool : ∀ i, from? = some i → (s.world.pool? i).isSome
  · rw [if_pos hpool, exec_buffer_bind, exec_act_bind, hbuffer] at hdone ⊢
    cases hexec : (ofBytes from? (bytes ++ rest) :
        Action ParticleError (Particle dim spacedim × Bytes)).exec s.world with
    | mk result w' =>
      rw [hexec] at hdone
      cases result with
      | error failure => cases hdone
      | ok result =>
        refine ⟨result.1, ?_, yields_ofBytes henc from? rest _ _ _ hexec⟩
        simp only
        rw [exec_keepBuffer_bind]
        exact find?_stored _ key result.1 _
  · rw [if_neg hpool] at hdone
    cases hdone

/-- Each particle of a batch is where the one is that stood at its place when it was written. -/
theorem find?_decodeBatch {w : World} {ps : List (Particle dim spacedim)} {first k : Nat}
    (sound : s.Sound False) (from? : Option Nat) (henc : Batch.encode w ps = .ok (s.bytes b))
    (hdone : (s.perform (.decodeBatch b from? first)).1.isFailure = false) (hk : ps[k]? = some p) :
    ∃ q, (s.perform (.decodeBatch b from? first)).2.particles.find? (first + k) = some q ∧
      p.SameKeys q := by
  rcases perform_decodeBatch sound b from? first with
    ⟨answer, s', hperform, -, hanswer⟩ | ⟨made, w₁, s₁, s', henc', -, hstore, hperform⟩
  · rw [hperform] at hdone
    rcases hanswer with rfl | ⟨cause, n, rfl⟩ <;> cases hdone
  · rw [hperform]
    have hrecords := Batch.forall₂_toRecord henc henc'
    obtain ⟨hlt, rfl⟩ := List.getElem?_eq_some_iff.mp hk
    have hlt' : k < made.length := hrecords.length_eq ▸ hlt
    obtain ⟨r, hr, hr'⟩ := hrecords.get hlt hlt'
    exact ⟨made[k], find?_storeAll hstore (List.getElem?_eq_getElem hlt'),
      sameKeys_of_toRecord hr hr'⟩

/-- What an index may rely on about the particles of a session. -/
structure KeysStable (s : Session dim spacedim) : Prop where
  /-- A particle that lives through some steps keeps its spatial key, unless one of them sets its
  reference location or overwrites it. -/
  spatial : ∀ key p steps, s.particles.find? key = some p → s.Lives key steps →
    s.KeepsReference key steps →
    ∃ p', (s.run steps).2.particles.find? key = some p' ∧
      p'.spatialKey = p.spatialKey ∧ p'.referenceKey = p.referenceKey
  /-- It keeps the key of an index over the whole space, unless one of them sets its location or
  overwrites it. -/
  location : ∀ key p steps, s.particles.find? key = some p → s.Lives key steps →
    s.KeepsLocation key steps →
    ∃ p', (s.run steps).2.particles.find? key = some p' ∧ p'.locationKey = p.locationKey
  /-- These are the keys that are shown. -/
  shown : ∀ key p, s.particles.find? key = some p →
    s.perform (.keys key) = (.keys p.spatialKey p.referenceKey p.locationKey, s)
  /-- A particle that is taken out of its place has the keys of the one that stays behind. -/
  taken : ∀ key dest p, s.particles.find? key = some p →
    ∃ q, (s.perform (.take key dest)).2.particles.find? dest = some q ∧ p.SameKeys q
  /-- So has a copy the keys of the particle copied, -/
  copied : ∀ key dest p, s.particles.find? key = some p →
    (s.perform (.copy key dest)).1.isFailure = false →
    ∃ q, (s.perform (.copy key dest)).2.particles.find? dest = some q ∧ p.SameKeys q
  /-- a particle that is read the keys of the one that was written, -/
  decoded : ∀ key b from? (p : Particle dim spacedim) w bytes rest,
    p.encode w = .ok bytes → s.bytes b = bytes ++ rest →
    (s.perform (.decode key b from?)).1.isFailure = false →
    ∃ q, (s.perform (.decode key b from?)).2.particles.find? key = some q ∧ p.SameKeys q
  /-- and each particle of a batch the keys of the one at its place. -/
  batch : ∀ b from? first (ps : List (Particle dim spacedim)) w,
    Batch.encode w ps = .ok (s.bytes b) →
    (s.perform (.decodeBatch b from? first)).1.isFailure = false →
    ∀ k p, ps[k]? = some p →
      ∃ q, (s.perform (.decodeBatch b from? first)).2.particles.find? (first + k) = some q ∧
        p.SameKeys q

/-- **Keys are stable**, after every run of steps. -/
theorem keysStable_run (steps : List (Step dim spacedim)) :
    (run ({} : Session dim spacedim) steps).2.KeysStable := by
  have sound := sound_reached steps
  refine ⟨fun key p later hp hlives hkeeps => ?_, fun key p later hp hlives hkeeps => ?_,
    fun key p hp => ?_, fun key dest p hp => ?_, fun key dest p hp hdone => find?_copy hp hdone,
    fun key b from? p w bytes rest henc hbuffer hdone => find?_decode from? henc hbuffer hdone,
    fun b from? first ps w henc hdone k p hk => find?_decodeBatch sound from? henc hdone hk⟩
  · obtain ⟨p', hp', hreference, -⟩ := keys_run sound hp later hlives
    exact ⟨p', hp', hreference hkeeps, hreference hkeeps⟩
  · obtain ⟨p', hp', -, hlocation⟩ := keys_run sound hp later hlives
    exact ⟨p', hp', hlocation hkeeps⟩
  · rw [perform_eq]
    simp only [ofStep]
    rw [exec_particle_of_some hp]
    rfl
  · refine ⟨p.take.1, ?_, (sameKeys_take p).1⟩
    have hparticles := particles_take dest hp
    rw [perform_snd]
    simp only [ofStep]
    rw [hparticles, Registry.find?_insert_self]

end Session

end ParticleStore
