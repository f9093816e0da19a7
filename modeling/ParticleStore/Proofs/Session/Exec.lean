/-
ParticleStore.Proofs.Session.Exec — what the parts of a step do to a session.

`exec m s` is the result of a part of a step, or the answer that ends the step, with
the session after it. As for actions on a world, one lemma for each way to build such
a part lets the steps be read as case distinctions, with no monad in sight.
-/
import ParticleStore.Session.Perform
import ParticleStore.Proofs.Batch
import ParticleStore.Proofs.Session.Registry

namespace ParticleStore

variable {dim spacedim : Nat} {α β : Type} {s : Session dim spacedim} {key i : Nat}

/-- The handle that a name stands for. -/
def Session.named? (s : Session dim spacedim) : HandleName → Option Handle
  | .kept key => s.handles.find? key
  | .ofParticle key => (s.particles.find? key).map Particle.handle

/-- The bytes in a buffer; a buffer that is not there is empty. -/
def Session.bytes (s : Session dim spacedim) (b : Nat) : Bytes := (s.buffers.find? b).getD []

/-- What is not there when a name stands for no handle. -/
def HandleName.what : HandleName → String
  | kept _ => "handle"
  | ofParticle _ => "particle"

namespace StepM

/-- The result of a part of a step, or the answer that ends the step, and the session then. -/
def exec (m : StepM dim spacedim α) (s : Session dim spacedim) :
    Except (Answer dim spacedim) α × Session dim spacedim := m.run.run s

/-- The answer to a step, and the session after it. -/
def finish : Except (Answer dim spacedim) (Answer dim spacedim) × Session dim spacedim →
    Answer dim spacedim × Session dim spacedim
  | (.ok answer, s) => (answer, s)
  | (.error answer, s) => (answer, s)

theorem perform_eq (s : Session dim spacedim) (step : Step dim spacedim) :
    s.perform step = finish ((ofStep step).exec s) := by
  unfold Session.perform exec
  cases (ofStep step).run.run s with
  | mk result s' => cases result <;> rfl

@[simp] theorem exec_pure (a : α) : (pure a : StepM dim spacedim α).exec s = (.ok a, s) := rfl

theorem exec_bind (m : StepM dim spacedim α) (f : α → StepM dim spacedim β) :
    (m >>= f).exec s =
      match m.exec s with
      | (.ok a, s') => (f a).exec s'
      | (.error answer, s') => (.error answer, s') := by
  show ((m >>= f).run).run s = match m.run.run s with | (.ok a, s') => _ | (.error _, s') => _
  rw [ExceptT.run_bind, StateT.run_bind]
  cases m.run.run s with
  | mk result s' => cases result <;> rfl

@[simp] theorem exec_get : (get : StepM dim spacedim _).exec s = (.ok s, s) := rfl

@[simp] theorem exec_set (s' : Session dim spacedim) :
    (set s' : StepM dim spacedim PUnit).exec s = (.ok ⟨⟩, s') := rfl

@[simp] theorem exec_modify (f : Session dim spacedim → Session dim spacedim) :
    (modify f : StepM dim spacedim PUnit).exec s = (.ok ⟨⟩, f s) := rfl

@[simp] theorem exec_modifyGet (f : Session dim spacedim → α × Session dim spacedim) :
    (modifyGet f : StepM dim spacedim α).exec s = (.ok (f s).1, (f s).2) := rfl

@[simp] theorem exec_stop (answer : Answer dim spacedim) :
    (stop answer : StepM dim spacedim α).exec s = (.error answer, s) := rfl

/-! ## Looking up -/

theorem exec_found (what : String) (o : Option α) :
    (found what o : StepM dim spacedim α).exec s =
      match o with
      | some a => (.ok a, s)
      | none => (.error (.unknown what), s) := by
  cases o <;> rfl

theorem exec_particle_bind (f : Particle dim spacedim → StepM dim spacedim β) :
    (particle key >>= f).exec s =
      match s.particles.find? key with
      | some p => (f p).exec s
      | none => (.error (.unknown "particle"), s) := by
  rw [exec_bind]
  unfold particle
  simp only [exec_bind, exec_get, exec_found]
  cases s.particles.find? key <;> rfl

/-- Looking particles up changes nothing. -/
theorem exec_particles (keys : List Nat) :
    (particles keys).exec s =
      match keys.mapM s.particles.find? with
      | some ps => (.ok ps, s)
      | none => (.error (.unknown "particle"), s) := by
  induction keys with
  | nil => rfl
  | cons key rest ih =>
    unfold particles
    rw [exec_particle_bind, List.mapM_cons]
    cases s.particles.find? key with
    | none => rfl
    | some p =>
      simp only
      rw [exec_bind, ih]
      cases rest.mapM s.particles.find? <;> rfl

theorem exec_keptHandle_bind (f : Handle → StepM dim spacedim β) :
    (keptHandle key >>= f).exec s =
      match s.handles.find? key with
      | some h => (f h).exec s
      | none => (.error (.unknown "handle"), s) := by
  rw [exec_bind]
  unfold keptHandle
  simp only [exec_bind, exec_get, exec_found]
  cases s.handles.find? key <;> rfl

theorem exec_handle_bind (name : HandleName) (f : Handle → StepM dim spacedim β) :
    (handle name >>= f).exec s =
      match s.named? name with
      | some h => (f h).exec s
      | none => (.error (.unknown name.what), s) := by
  cases name with
  | kept key => exact exec_keptHandle_bind f
  | ofParticle key =>
    rw [exec_bind]
    unfold handle
    rw [exec_particle_bind]
    cases hp : s.particles.find? key <;> simp [Session.named?, hp, HandleName.what]

theorem exec_pool_bind (f : Pool → StepM dim spacedim β) :
    (pool i >>= f).exec s =
      match s.world.pool? i with
      | some p => (f p).exec s
      | none => (.error (.unknown "pool"), s) := by
  rw [exec_bind]
  unfold pool
  simp only [exec_bind, exec_get, exec_found]
  cases s.world.pool? i <;> rfl

theorem exec_poolPosition_bind (f : Nat → StepM dim spacedim β) :
    (poolPosition i >>= f).exec s =
      match s.world.pool? i with
      | some _ => (f i).exec s
      | none => (.error (.unknown "pool"), s) := by
  rw [exec_bind]
  unfold poolPosition
  rw [exec_pool_bind]
  cases s.world.pool? i <;> rfl

/-- A pool is looked up only if one is given. -/
theorem exec_positions_bind (from? : Option Nat) (f : Option Nat → StepM dim spacedim β) :
    (from?.mapM poolPosition >>= f).exec s =
      if ∀ i, from? = some i → (s.world.pool? i).isSome then (f from?).exec s
      else (.error (.unknown "pool"), s) := by
  cases from? with
  | none =>
    rw [if_pos fun _ he => by cases he]
    rfl
  | some i =>
    have hmap : ((some i).mapM poolPosition : StepM dim spacedim _) =
        poolPosition i >>= fun i => pure (some i) := (map_eq_pure_bind ..)
    rw [hmap, exec_bind, exec_poolPosition_bind]
    cases hp : s.world.pool? i <;> simp [hp]

theorem exec_view_bind (f : Nat × View → StepM dim spacedim β) :
    (view key >>= f).exec s =
      match s.views.find? key with
      | some v => (f v).exec s
      | none => (.error (.unknown "view"), s) := by
  rw [exec_bind]
  unfold view
  simp only [exec_bind, exec_get, exec_found]
  cases s.views.find? key <;> rfl

theorem exec_buffer_bind (f : Bytes → StepM dim spacedim β) :
    (buffer key >>= f).exec s = (f (s.bytes key)).exec s := rfl

theorem exec_world_bind (f : World → StepM dim spacedim β) :
    (world >>= f).exec s = (f s.world).exec s := rfl

/-! What is known to be there is found. -/

theorem exec_particle_of_some {p : Particle dim spacedim} (hp : s.particles.find? key = some p)
    (f : Particle dim spacedim → StepM dim spacedim β) :
    (particle key >>= f).exec s = (f p).exec s := by
  rw [exec_particle_bind, hp]

theorem exec_handle_of_particle {p : Particle dim spacedim} (hp : s.particles.find? key = some p)
    (f : Handle → StepM dim spacedim β) :
    (handle (.ofParticle key) >>= f).exec s = (f p.handle).exec s := by
  rw [exec_handle_bind, Session.named?, hp, Option.map_some]

theorem exec_poolPosition_of_some {p : Pool} (hp : s.world.pool? i = some p)
    (f : Nat → StepM dim spacedim β) : (poolPosition i >>= f).exec s = (f i).exec s := by
  rw [exec_poolPosition_bind, hp]

/-! ## Acting -/

theorem exec_act_bind {ε : Type} (action : Action ε α)
    (f : Attempt ε α → StepM dim spacedim β) :
    (act action >>= f).exec s =
      (f (action.exec s.world).1).exec { s with world := (action.exec s.world).2 } := rfl

theorem exec_actOnParticle_bind (action : Action ParticleError α) (f : α → StepM dim spacedim β) :
    (actOnParticle action >>= f).exec s =
      match action.exec s.world with
      | (.ok a, w) => (f a).exec { s with world := w }
      | (.error failure, w) => (.error (.failed failure), { s with world := w }) := by
  rw [exec_bind]
  unfold actOnParticle
  rw [exec_act_bind]
  cases action.exec s.world with
  | mk result w => cases result <;> rfl

theorem exec_actOnPool_bind (f : Pool → Attempt PoolError (α × Pool))
    (g : α → StepM dim spacedim β) :
    (actOnPool i f >>= g).exec s =
      match (World.onPool i f).exec s.world with
      | (.ok a, w) => (g a).exec { s with world := w }
      | (.error failure, w) => (.error (.poolFailed failure), { s with world := w }) := by
  rw [exec_bind]
  unfold actOnPool
  rw [exec_act_bind]
  cases (World.onPool i f).exec s.world with
  | mk result w => cases result <;> rfl

/-! ## Storing -/

theorem exec_keepHandle_bind (h : Handle) (f : PUnit → StepM dim spacedim β) :
    (keepHandle key h >>= f).exec s =
      (f ⟨⟩).exec { s with handles := s.handles.insert key h } := rfl

theorem exec_keepBuffer_bind (data : Bytes) (f : PUnit → StepM dim spacedim β) :
    (keepBuffer key data >>= f).exec s =
      (f ⟨⟩).exec { s with buffers := s.buffers.insert key data } := rfl

theorem exec_putBack_bind (p : Particle dim spacedim) (f : PUnit → StepM dim spacedim β) :
    (putBack key p >>= f).exec s =
      (f ⟨⟩).exec { s with particles := s.particles.insert key p } := rfl

/-- A change of a particle, as the step that makes it answers. -/
theorem finish_revise {p : Particle dim spacedim}
    {f : Particle dim spacedim → Action ParticleError (Particle dim spacedim)}
    (hp : s.particles.find? key = some p) :
    finish ((revise key f).exec s) =
      match (f p).exec s.world with
      | (.ok q, w) => (.done, { s with world := w, particles := s.particles.insert key q })
      | (.error failure, w) => (.failed failure, { s with world := w }) := by
  unfold revise
  rw [exec_particle_of_some hp, exec_actOnParticle_bind]
  cases (f p).exec s.world with
  | mk result w => cases result <;> rfl

end StepM

/-- The session once a new particle is stored under a key, and the one that was there
dropped. -/
def Session.stored (s : Session dim spacedim) (key : Nat) (p : Particle dim spacedim) :
    Session dim spacedim :=
  { s with
    particles := s.particles.insert key p
    world :=
      match s.particles.find? key with
      | none => s.world
      | some old => old.worldWithout s.world }

namespace StepM

/-- Storing never fails. -/
theorem exec_store {p : Particle dim spacedim} (wf : s.world.WellFormed)
    (placed : ∀ old, s.particles.find? key = some old → old.Placed s.world) :
    (store key p).exec s = (.ok ⟨⟩, s.stored key p) := by
  unfold store Session.stored
  rw [exec_bind, exec_get]
  simp only
  rw [exec_putBack_bind]
  cases hold : s.particles.find? key with
  | none => rfl
  | some old =>
    have hdrop := Particle.exec_drop (ε := ParticleError) wf (placed old hold)
    simp only
    unfold actOnParticle
    rw [exec_act_bind]
    simp only [hdrop]
    rfl

/-! ## Views -/

/-- Looking through a view changes nothing. -/
theorem exec_viewed (key : Nat) : ∃ result, (viewed key).exec s = (result, s) := by
  unfold viewed
  rw [exec_view_bind]
  cases s.views.find? key with
  | none => exact ⟨_, rfl⟩
  | some v =>
    simp only
    rw [exec_pool_bind]
    cases s.world.pool? v.1 with
    | none => exact ⟨_, rfl⟩
    | some p =>
      simp only
      cases p.slotValues v.2.position <;> exact ⟨_, rfl⟩

theorem exec_shutView :
    (shutView key).exec s =
      match s.views.find? key with
      | none => (.ok false, s)
      | some (i, v) =>
        match s.world.pool? i with
        | none =>
          (.error (.poolFailed (.broken .unknownPool)), { s with views := s.views.erase key })
        | some p =>
          (.ok true,
            { s with views := s.views.erase key, world := s.world.setPool i (p.closeView v) }) := by
  unfold shutView
  rw [exec_bind, exec_get]
  simp only
  cases s.views.find? key with
  | none => rfl
  | some entry =>
    simp only
    rw [exec_bind, exec_set]
    simp only
    rw [exec_actOnPool_bind, World.exec_onPool]
    simp only
    cases s.world.pool? entry.1 <;> rfl

/-! ## Writing -/

/-- A particle is appended to a buffer, or nothing is changed. -/
theorem perform_encode (s : Session dim spacedim) (key b : Nat) :
    s.perform (.encode key b) =
      match s.particles.find? key with
      | none => (.unknown "particle", s)
      | some p =>
        match p.encode s.world with
        | .ok bytes => (.transferred (.ok ()) (s.bytes b ++ bytes).length,
            { s with buffers := s.buffers.insert b (s.bytes b ++ bytes) })
        | .error failure => (.transferred (.error failure) (s.bytes b).length, s) := by
  rw [perform_eq]
  simp only [ofStep]
  unfold encode
  rw [exec_particle_bind]
  cases s.particles.find? key with
  | none => rfl
  | some p =>
    simp only
    rw [exec_buffer_bind, exec_world_bind]
    cases p.encode s.world <;> rfl

/-- All particles are appended to a buffer, or nothing is changed. -/
theorem perform_encodeBatch (s : Session dim spacedim) (keys : List Nat) (b : Nat) :
    s.perform (.encodeBatch keys b) =
      match keys.mapM s.particles.find? with
      | none => (.unknown "particle", s)
      | some ps =>
        match Batch.encode s.world ps with
        | .ok bytes =>
          (.batchEncoded (.ok ()) (Batch.byteWidth s.world ps) (s.bytes b ++ bytes).length,
            { s with buffers := s.buffers.insert b (s.bytes b ++ bytes) })
        | .error failure =>
          (.batchEncoded (.error failure) (Batch.byteWidth s.world ps) (s.bytes b).length, s) := by
  rw [perform_eq]
  simp only [ofStep]
  unfold encodeBatch
  rw [exec_bind, exec_particles]
  cases keys.mapM s.particles.find? with
  | none => rfl
  | some ps =>
    simp only
    rw [exec_world_bind, exec_buffer_bind]
    cases Batch.encode s.world ps <;> rfl

end StepM

end ParticleStore
