/-
ParticleStore.Proofs.Session.Failure — operations that fail leave no trace.

The operations on particles that can be refused work in several steps: bytes are
decoded, property counts compared, values read, slots taken and released.
`errorSafe_run` says of every session that can be reached, with handles of any origin
and particles whose slots were released behind their backs, that an operation that
fails leaves pools, particles, handles, views and buffers exactly as they were. A
slot taken and given back would show in the next generation of that slot, so no failing
operation ever does that: once a slot is taken, filling it and releasing the old one
succeed.
-/
import ParticleStore.Proofs.Session.Sound

namespace ParticleStore

open ParticleStore.Action Particle World StepM

variable {dim spacedim : Nat} {sole : Prop} {s s' : Session dim spacedim} {key dest i b : Nat}

/-- The particle operations that can be refused. -/
def Step.isFallible : Step dim spacedim → Bool
  | .decode .. | .copy .. | .copyFrom .. | .moveTo .. | .setValues .. | .setValuesFromView .. |
    .update .. | .load .. | .encode .. | .save .. => true
  | _ => false

/-- The buffer that serves a step as a stream. -/
def Step.stream? : Step dim spacedim → Option Nat
  | .load _ b _ | .save _ b _ _ => some b
  | _ => none

/-- The step gave no result. -/
def Answer.isFailure : Answer dim spacedim → Bool
  | .unknown _ | .poolFailed _ | .failed _ | .released (.error _) _ | .transferred (.error _) _ |
    .batchEncoded (.error _) _ _ => true
  | _ => false

namespace Session

/-- What a failed operation leaves: everything as it was, but for the bytes that a stream
has given or taken. -/
structure Untouched (step : Step dim spacedim) (s s' : Session dim spacedim) : Prop where
  world_eq : s'.world = s.world
  particles_eq : s'.particles = s.particles
  handles_eq : s'.handles = s.handles
  views_eq : s'.views = s.views
  buffers_eq : ∀ b, step.stream? ≠ some b → s'.bytes b = s.bytes b
  read : ∀ p b chunk, step = .load p b chunk → s'.bytes b <:+ s.bytes b
  written : ∀ p b chunk room, step = .save p b chunk room → s.bytes b <+: s'.bytes b

namespace Untouched

variable {step : Step dim spacedim}

theorem of_eq (heq : s' = s) : Untouched step s s' := by
  subst heq
  exact ⟨rfl, rfl, rfl, rfl, fun _ _ => rfl, fun _ _ _ _ => List.suffix_refl _,
    fun _ _ _ _ _ => List.prefix_refl _⟩

/-- A stream that was read from has a back part of its bytes left. -/
theorem of_load {chunk : Option Nat} {left : Bytes} (hsuffix : left <:+ s.bytes b) :
    Untouched (.load key b chunk) s { s with buffers := s.buffers.insert b left } := by
  refine ⟨rfl, rfl, rfl, rfl, fun other hother => ?_, fun _ _ _ he => ?_, fun _ _ _ _ he => ?_⟩
  · have hne : other ≠ b := fun he => hother (he ▸ rfl)
    simp only [bytes, Registry.find?_insert_of_ne _ _ hne]
  · cases he
    simp only [bytes, Registry.find?_insert_self]
    exact hsuffix
  · cases he

/-- A stream that was written to has its bytes, and some more behind them. -/
theorem of_save {chunk room : Option Nat} (taken : Bytes) :
    Untouched (.save key b chunk room) s
      { s with buffers := s.buffers.insert b (s.bytes b ++ taken) } := by
  refine ⟨rfl, rfl, rfl, rfl, fun other hother => ?_, fun _ _ _ he => ?_, fun _ _ _ _ he => ?_⟩
  · have hne : other ≠ b := fun he => hother (he ▸ rfl)
    simp only [bytes, Registry.find?_insert_of_ne _ _ hne]
  · cases he
  · cases he
    simp only [bytes, Registry.find?_insert_self]
    exact List.prefix_append _ _

end Untouched

end Session

namespace StepM

open Session

/-- A change of a particle that fails leaves the session as it was. -/
theorem revise_failure {f : Particle dim spacedim → Action ParticleError (Particle dim spacedim)}
    {post : Particle dim spacedim → Particle dim spacedim → World → Prop}
    (hf : ∀ p, s.particles.find? key = some p → (f p).Settles s.world (post p))
    (hfail : (finish ((revise key f).exec s)).1.isFailure = true) :
    (finish ((revise key f).exec s)).2 = s := by
  unfold revise at hfail ⊢
  rw [exec_particle_bind] at hfail ⊢
  cases hp : s.particles.find? key with
  | none => rfl
  | some p =>
    obtain ⟨cause, p', w', he, -⟩ := hf p hp
    simp only [hp] at hfail ⊢
    rw [exec_actOnParticle_bind, he] at hfail ⊢
    cases cause with
    | some e => rfl
    | none => cases hfail

section Steps

variable (sound : s.Sound sole)

include sound

theorem decode_failure (from? : Option Nat)
    (hfail : (finish ((decode key b from?).exec s)).1.isFailure = true) :
    (finish ((decode key b from?).exec s)).2 = s := by
  unfold decode at hfail ⊢
  rw [exec_positions_bind] at hfail ⊢
  by_cases hpool : ∀ i, from? = some i → (s.world.pool? i).isSome
  · rw [if_pos hpool] at hfail ⊢
    obtain ⟨cause, result, w', he, hpost⟩ :=
      ofBytes_settles dim spacedim (s.bytes b) sound.wellFormed
        fun i hi => Option.isSome_iff_exists.mp (hpool i hi)
    rw [exec_buffer_bind, exec_act_bind, he] at hfail ⊢
    cases cause with
    | some e => rfl
    | none =>
      -- a particle that was made is stored, which never fails
      obtain ⟨p, rest⟩ := result
      have t := sound.2.born (hpost rfl)
      simp only [decided_none] at hfail
      rw [exec_keepBuffer_bind, exec_bind,
        exec_store_of_tenancy _ (by exact t) (List.subset_cons_self _ _)] at hfail
      cases hfail
  · rw [if_neg hpool]
    rfl

theorem copy_failure (hfail : (finish ((copy key dest).exec s)).1.isFailure = true) :
    (finish ((copy key dest).exec s)).2 = s := by
  unfold copy at hfail ⊢
  rw [exec_particle_bind] at hfail ⊢
  cases hp : s.particles.find? key with
  | none => rfl
  | some p =>
    obtain ⟨cause, p', w', he, hpost⟩ := copy_settles sound.wellFormed (sound.placed hp)
    simp only [hp] at hfail ⊢
    rw [exec_actOnParticle_bind, he] at hfail ⊢
    cases cause with
    | some e => rfl
    | none =>
      have t := sound.2.born (hpost rfl)
      simp only [decided_none] at hfail
      rw [exec_bind, exec_store_of_tenancy _ (by exact t) (List.subset_cons_self _ _)] at hfail
      cases hfail

theorem copyFrom_failure (source : Nat)
    (hfail : (finish ((ofStep (.copyFrom key source) : StepM dim spacedim _).exec s)).1.isFailure =
      true) :
    (finish ((ofStep (.copyFrom key source) : StepM dim spacedim _).exec s)).2 = s := by
  simp only [ofStep] at hfail ⊢
  rw [exec_particle_bind] at hfail ⊢
  cases hother : s.particles.find? source with
  | none => rfl
  | some other =>
    simp only [hother] at hfail
    exact revise_failure (fun p hp =>
      copyFrom_settles sound.wellFormed (sound.placed hp) (sound.placed hother)) hfail

theorem moveTo_failure (target : Nat)
    (hfail : (finish ((ofStep (.moveTo key target) : StepM dim spacedim _).exec s)).1.isFailure =
      true) :
    (finish ((ofStep (.moveTo key target) : StepM dim spacedim _).exec s)).2 = s := by
  simp only [ofStep] at hfail ⊢
  rw [exec_poolPosition_bind] at hfail ⊢
  cases ht : s.world.pool? target with
  | none => rfl
  | some tg =>
    simp only [ht] at hfail
    exact revise_failure (fun p hp => moveTo_settles sound.wellFormed (sound.placed hp) ht) hfail

theorem setValuesFromView_failure (v : Nat)
    (hfail : (finish ((setValuesFromView key v).exec s)).1.isFailure = true) :
    (finish ((setValuesFromView key v).exec s)).2 = s := by
  unfold setValuesFromView at hfail ⊢
  rw [exec_particle_bind] at hfail ⊢
  cases hp : s.particles.find? key with
  | none => rfl
  | some p =>
    obtain ⟨result, hviewed⟩ := exec_viewed (s := s) v
    simp only [hp] at hfail ⊢
    rw [exec_bind, hviewed] at hfail ⊢
    cases result with
    | error answer => rfl
    | ok values =>
      obtain ⟨cause, p', w', he, -⟩ :=
        setValues_settles values sound.wellFormed (sound.placed hp)
      simp only at hfail ⊢
      rw [exec_actOnParticle_bind, he] at hfail ⊢
      cases cause with
      | some e => rfl
      | none => cases hfail

theorem update_failure (hfail : (finish ((update key b).exec s)).1.isFailure = true) :
    (finish ((update key b).exec s)).2 = s := by
  unfold update at hfail ⊢
  rw [exec_particle_bind] at hfail ⊢
  cases hp : s.particles.find? key with
  | none => rfl
  | some p =>
    obtain ⟨cause, result, w', he, -⟩ :=
      update_settles (s.bytes b) sound.wellFormed (sound.placed hp)
    simp only [hp] at hfail ⊢
    rw [exec_buffer_bind, exec_act_bind, he] at hfail ⊢
    cases cause with
    | some e => rfl
    | none => cases hfail

theorem load_failure (chunk : Option Nat)
    (hfail : (finish ((load key b chunk).exec s)).1.isFailure = true) :
    (finish ((load key b chunk).exec s)).2 = s ∨
      ∃ left, left <:+ s.bytes b ∧
        (finish ((load key b chunk).exec s)).2 = { s with buffers := s.buffers.insert b left } := by
  unfold load at hfail ⊢
  rw [exec_particle_bind] at hfail ⊢
  cases hp : s.particles.find? key with
  | none => exact .inl rfl
  | some p =>
    obtain ⟨result, left, w', he, hsuffix, hpost⟩ :=
      load_settles sound.wellFormed (sound.placed hp) chunk (s.bytes b)
    simp only [hp] at hfail ⊢
    rw [exec_buffer_bind, exec_bind, exec_modifyGet] at hfail ⊢
    simp only [he] at hfail ⊢
    rw [exec_keepBuffer_bind] at hfail ⊢
    cases result with
    | ok p' => cases hfail
    | error failure =>
      obtain ⟨rfl, -⟩ := hpost
      exact .inr ⟨left, hsuffix, rfl⟩

end Steps

theorem save_session (key b : Nat) (chunk room : Option Nat) :
    (finish ((save key b chunk room).exec s)).2 = s ∨
      ∃ taken, (finish ((save key b chunk room).exec s)).2 =
        { s with buffers := s.buffers.insert b (s.bytes b ++ taken) } := by
  unfold save
  rw [exec_particle_bind]
  cases s.particles.find? key with
  | none => exact .inl rfl
  | some p => exact .inr ⟨_, rfl⟩

theorem encode_failure (hfail : (finish ((encode key b).exec s)).1.isFailure = true) :
    (finish ((encode key b).exec s)).2 = s := by
  unfold encode at hfail ⊢
  rw [exec_particle_bind] at hfail ⊢
  cases hp : s.particles.find? key with
  | none => rfl
  | some p =>
    simp only [hp] at hfail ⊢
    rw [exec_buffer_bind, exec_world_bind] at hfail ⊢
    cases he : p.encode s.world with
    | error failure => rfl
    | ok bytes =>
      simp only [he] at hfail
      cases hfail

end StepM

namespace Session

/-- A session that no failing operation on particles leaves a trace in. -/
structure ErrorSafe (s : Session dim spacedim) : Prop where
  untouched : ∀ step : Step dim spacedim, step.isFallible = true →
    (s.perform step).1.isFailure = true → Untouched step s (s.perform step).2
  /-- A slot that was taken can be filled, so it is never given back for that. -/
  filled : ∀ i pool values h w, s.world.pool? i = some pool → values.length = pool.stride →
    (World.allocate i).exec s.world = (.ok h, w) → ((World.setValues i h values).exec w).1 = .ok ()
  /-- Once values that were read are in a slot of another pool, the slot they were read from
  can be released, so the new one is never given back for that. -/
  released : ∀ i h source values target pool moved w, s.world.pool? i = some source →
    (World.values i h).exec s.world = (.ok values, s.world) →
    s.world.pool? target = some pool → source.stride = pool.stride →
    (World.allocateFilled target values).exec s.world = (.ok moved, w) →
      ((World.release i h).exec w).1 = .ok .invalid

/-- A failing operation leaves no trace. -/
theorem Sound.untouched (sound : s.Sound sole) (step : Step dim spacedim)
    (hfallible : step.isFallible = true) (hfail : (s.perform step).1.isFailure = true) :
    Untouched step s (s.perform step).2 := by
  rw [perform_eq] at hfail ⊢
  cases step with
  | decode p b from? => exact .of_eq (decode_failure sound from? hfail)
  | copy p dest => exact .of_eq (copy_failure sound hfail)
  | copyFrom p source => exact .of_eq (copyFrom_failure sound source hfail)
  | moveTo p i => exact .of_eq (moveTo_failure sound i hfail)
  | setValues p values =>
    exact .of_eq (revise_failure
      (fun q hq => setValues_settles _ sound.wellFormed (sound.placed hq)) hfail)
  | setValuesFromView p v => exact .of_eq (setValuesFromView_failure sound v hfail)
  | update p b => exact .of_eq (update_failure sound hfail)
  | load p b chunk =>
    obtain heq | ⟨left, hsuffix, heq⟩ := load_failure sound chunk hfail
    · exact .of_eq heq
    · simp only [ofStep, heq]
      exact .of_load hsuffix
  | encode p b => exact .of_eq (encode_failure hfail)
  | save p b chunk room =>
    obtain heq | ⟨taken, heq⟩ := save_session (s := s) p b chunk room
    · exact .of_eq heq
    · simp only [ofStep, heq]
      exact .of_save taken
  | _ => exact absurd hfallible Bool.false_ne_true

theorem Sound.errorSafe (sound : s.Sound sole) : s.ErrorSafe where
  untouched := sound.untouched
  filled i pool values h w hp hv he := by
    have wf := sound.wellFormed.pool i pool hp
    rw [World.exec_allocate hp wf] at he
    cases hnone : pool.viewed?.or pool.full? with
    | some cause =>
      rw [hnone] at he
      cases he
    | none =>
      rw [hnone] at he
      cases he
      rw [World.exec_setValues_taken hp wf hnone hv]
  released i h source values target pool moved w hp hread ht hstride he := by
    have wf := sound.wellFormed
    have wfp := wf.pool i source hp
    rw [World.exec_values hp wfp] at hread
    cases hflawed : (source.flawed? h).or source.written? with
    | some cause =>
      rw [hflawed] at hread
      cases hread
    | none =>
      rw [hflawed] at hread
      cases hread
      have hgood := (Option.or_eq_none_iff.mp hflawed).1
      have hlen : (source.block h.index.toNat).length = pool.stride := by
        rw [Pool.length_block_of_flawed? wfp hgood, hstride]
      rw [World.exec_allocateFilled ht (wf.pool target pool ht) hlen] at he
      cases hnone : pool.viewed?.or pool.full? with
      | some cause =>
        rw [hnone] at he
        cases he
      | none =>
        rw [hnone] at he
        cases he
        rw [World.exec_release_filled wf hp hgood ht hnone hlen]

/-- **Operations that fail leave no trace.** This holds after any run of steps, with
handles of any origin. -/
theorem errorSafe_run (steps : List (Step dim spacedim)) :
    (run ({} : Session dim spacedim) steps).2.ErrorSafe :=
  have sound : Sound False ({} : Session dim spacedim) := sound_empty
  (sound_run sound steps fun hfalse => hfalse.elim).errorSafe

end Session

end ParticleStore
