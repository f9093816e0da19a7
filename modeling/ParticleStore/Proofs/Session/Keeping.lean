/-
ParticleStore.Proofs.Session.Keeping — particles that a step leaves alone.

A step names the keys that it works on, and the particles under all other keys stay as they
are, whatever happens to the pools (`keeps_ofStep`). This is a property of the parts that a
step is built of (`StepM.Keeps`): only putting back, storing and dropping touch particles, and
each of them touches one key. A batch stores its particles under successive keys, where
they are found afterwards (`perform_decodeBatch`).
-/
import ParticleStore.Proofs.Framing
import ParticleStore.Proofs.Session.Calls

namespace ParticleStore

open ParticleStore.Action Particle World StepM

variable {dim spacedim : Nat} {α β : Type} {s : Session dim spacedim} {key other dest i b : Nat}
  {p q : Particle dim spacedim} {made : List (Particle dim spacedim)}

/-! ## Parts of a step that leave a key alone -/

namespace StepM

/-- Whatever a part of a step does, the particle under the key stays as it is. -/
def Keeps (key : Nat) (m : StepM dim spacedim α) : Prop :=
  ∀ s : Session dim spacedim, (m.exec s).2.particles.find? key = s.particles.find? key

namespace Keeps

/-- A part that leaves all particles alone. -/
theorem of_same {m : StepM dim spacedim α} (hsame : ∀ s, (m.exec s).2.particles = s.particles) :
    m.Keeps key := fun s => by rw [hsame s]

theorem of_pure (a : α) : (pure a : StepM dim spacedim α).Keeps key := .of_same fun _ => rfl

theorem of_stop (answer : Answer dim spacedim) : (stop answer : StepM dim spacedim α).Keeps key :=
  .of_same fun _ => rfl

theorem bind {m : StepM dim spacedim α} {f : α → StepM dim spacedim β} (hm : m.Keeps key)
    (hf : ∀ a, (f a).Keeps key) : (m >>= f).Keeps key := by
  intro s
  have first := hm s
  rw [exec_bind]
  cases hexec : m.exec s with
  | mk result s' =>
    rw [hexec] at first
    cases result with
    | error answer => exact first
    | ok a => exact (hf a s').trans first

/-- The session is looked up first. -/
theorem of_get {f : Session dim spacedim → StepM dim spacedim β}
    (hf : ∀ s, ((f s).exec s).2.particles.find? key = s.particles.find? key) :
    (get >>= f).Keeps key := fun s => by
  rw [exec_bind, exec_get]
  exact hf s

theorem act {ε : Type} (action : Action ε α) :
    (StepM.act action : StepM dim spacedim _).Keeps key := .of_same fun _ => rfl

theorem actOnParticle (action : Action ParticleError α) :
    (StepM.actOnParticle action : StepM dim spacedim _).Keeps key :=
  (act action).bind fun result => by
    cases result with
    | ok a => exact .of_pure a
    | error failure => exact .of_stop _

theorem actOnPool (i : Nat) (f : Pool → Attempt PoolError (α × Pool)) :
    (StepM.actOnPool i f : StepM dim spacedim _).Keeps key :=
  (act (onPool i f)).bind fun result => by
    cases result with
    | ok a => exact .of_pure a
    | error failure => exact .of_stop _

end Keeps

/-! Looking up changes nothing. -/

theorem keeps_found (what : String) (o : Option α) :
    (found what o : StepM dim spacedim α).Keeps key := by
  cases o with
  | some a => exact .of_pure a
  | none => exact .of_stop _

theorem keeps_particle (other : Nat) : (particle other : StepM dim spacedim _).Keeps key :=
  .of_get fun s => keeps_found _ _ s

theorem keeps_particles (keys : List Nat) : (particles keys : StepM dim spacedim _).Keeps key :=
  .of_same fun s => by
    rw [exec_particles]
    cases keys.mapM s.particles.find? <;> rfl

theorem keeps_keptHandle (other : Nat) : (keptHandle other : StepM dim spacedim _).Keeps key :=
  .of_get fun s => keeps_found _ _ s

theorem keeps_handle (name : HandleName) : (handle name : StepM dim spacedim _).Keeps key := by
  cases name with
  | kept other => exact keeps_keptHandle other
  | ofParticle other => exact (keeps_particle other).bind fun p => .of_pure p.handle

theorem keeps_pool (i : Nat) : (pool i : StepM dim spacedim _).Keeps key :=
  .of_get fun s => keeps_found _ _ s

theorem keeps_poolPosition (i : Nat) : (poolPosition i : StepM dim spacedim _).Keeps key :=
  (keeps_pool i).bind fun _ => .of_pure i

theorem keeps_positions (from? : Option Nat) :
    (from?.mapM poolPosition : StepM dim spacedim _).Keeps key := by
  intro s
  have hbind := exec_positions_bind (s := s) from? fun from? => (pure from? : StepM dim spacedim _)
  rw [bind_pure] at hbind
  rw [hbind]
  split <;> rfl

theorem keeps_viewed (other : Nat) : (viewed other : StepM dim spacedim _).Keeps key :=
  .of_same fun s => by
    obtain ⟨result, hviewed⟩ := exec_viewed (s := s) other
    rw [hviewed]

theorem keeps_shutView (other : Nat) : (shutView other : StepM dim spacedim _).Keeps key :=
  .of_same fun s => by
    rw [exec_shutView]
    cases s.views.find? other with
    | none => rfl
    | some entry =>
      simp only
      cases s.world.pool? entry.1 <;> rfl

/-! Storing concerns one key. -/

theorem keeps_putBack (p : Particle dim spacedim) (hne : key ≠ other) :
    (putBack other p).Keeps key := fun _ => Registry.find?_insert_of_ne _ p hne

/-- Whatever becomes of the particle that was there, the new one is stored. -/
theorem particles_store (s : Session dim spacedim) (key : Nat) (p : Particle dim spacedim) :
    ((store key p).exec s).2.particles = s.particles.insert key p := by
  unfold store
  rw [exec_bind, exec_get]
  simp only
  rw [exec_putBack_bind]
  cases s.particles.find? key with
  | none => rfl
  | some old =>
    show ((actOnParticle old.drop).exec _).2.particles = _
    unfold actOnParticle
    rw [exec_act_bind]
    split <;> rfl

theorem keeps_store (p : Particle dim spacedim) (hne : key ≠ other) :
    (store other p).Keeps key := fun s => by
  rw [particles_store]
  exact Registry.find?_insert_of_ne _ p hne

theorem keeps_storeAll (first : Nat) (made : List (Particle dim spacedim))
    (hout : ¬ (first ≤ key ∧ key < first + made.length)) : (storeAll first made).Keeps key := by
  induction made generalizing first with
  | nil => exact .of_pure ()
  | cons p rest ih =>
    rw [List.length_cons] at hout
    exact (keeps_store p (by omega)).bind fun _ => ih (first + 1) (by omega)

/-- Particles that are stored one after the other are there. -/
theorem find?_storeAll {first : Nat} {s' : Session dim spacedim}
    (hstore : (storeAll first made).exec s = (.ok ⟨⟩, s')) {k : Nat} (hk : made[k]? = some p) :
    s'.particles.find? (first + k) = some p := by
  induction made generalizing first s k with
  | nil => cases hk
  | cons q rest ih =>
    unfold storeAll at hstore
    rw [exec_bind] at hstore
    cases hfirst : (store first q).exec s with
    | mk result s₁ =>
      have hthere := particles_store s first q
      rw [hfirst] at hstore hthere
      cases result with
      | error answer => cases hstore
      | ok _ =>
        simp only at hstore hthere
        cases k with
        | zero =>
          cases hk
          have keeps : (storeAll (first + 1) rest).Keeps first := keeps_storeAll _ _ (by omega)
          have hkept := keeps s₁
          rw [hstore] at hkept
          rw [Nat.add_zero, hkept, hthere, Registry.find?_insert_self]
        | succ k =>
          have hlater := ih hstore hk
          rwa [Nat.add_right_comm, Nat.add_assoc] at hlater

end StepM

/-! ## Steps that leave a key alone -/

/-- The steps that may store, change or drop a particle under the key. -/
def Step.touches (key : Nat) : Step dim spacedim → Bool
  | .make p | .makeAt p .. | .decode p .. | .copy _ p | .copyFrom p _ | .drop p | .update p _ |
    .load p .. | .setLocation p _ | .setReference p _ | .setId p _ | .releaseSlot p |
    .moveTo p _ | .setValues p _ | .setValuesFromView p _ => key == p
  | .take p dest => key == p || key == dest
  | .decodeBatch _ _ first => first ≤ key
  | _ => false

namespace StepM

theorem keeps_revise (f : Particle dim spacedim → Action ParticleError (Particle dim spacedim))
    (hne : key ≠ other) : (revise other f).Keeps key :=
  (keeps_particle other).bind fun p => (Keeps.actOnParticle (f p)).bind fun p' =>
    (keeps_putBack p' hne).bind fun _ => .of_pure _

theorem keeps_storeNew (p : Particle dim spacedim) (hne : key ≠ other) :
    (storeNew other p).Keeps key := (keeps_store p hne).bind fun _ => .of_pure _

theorem keeps_decode (from? : Option Nat) (hne : key ≠ other) :
    (decode other b from? : StepM dim spacedim _).Keeps key := by
  refine (keeps_positions from?).bind fun from? => Keeps.bind (.of_same fun _ => rfl) fun input =>
    (Keeps.act (ofBytes from? input)).bind fun result => ?_
  cases result with
  | ok result =>
    exact Keeps.bind (.of_same fun _ => rfl) fun _ => (keeps_store result.1 hne).bind fun _ =>
      .of_pure _
  | error failure => exact .of_pure _

theorem keeps_take (hne : key ≠ other) (hne' : key ≠ dest) :
    (take other dest : StepM dim spacedim _).Keeps key :=
  (keeps_particle other).bind fun p => (keeps_putBack p.take.2 hne).bind fun _ =>
    (keeps_store p.take.1 hne').bind fun _ => .of_pure _

theorem keeps_drop (hne : key ≠ other) : (drop other : StepM dim spacedim _).Keeps key := by
  refine .of_get fun s => ?_
  cases s.particles.find? other with
  | none => rfl
  | some p =>
    have erased := Registry.find?_erase_of_ne s.particles hne
    exact (((Keeps.actOnParticle p.drop).bind fun _ => .of_pure _) _).trans erased

theorem keeps_update (hne : key ≠ other) : (update other b : StepM dim spacedim _).Keeps key := by
  refine (keeps_particle other).bind fun p => Keeps.bind (.of_same fun _ => rfl) fun input =>
    (Keeps.act (p.update input)).bind fun result => ?_
  cases result with
  | ok result =>
    exact Keeps.bind (.of_same fun _ => rfl) fun _ => (keeps_putBack result.1 hne).bind fun _ =>
      .of_pure _
  | error failure => exact .of_pure _

theorem keeps_load (chunk : Option Nat) (hne : key ≠ other) :
    (load other b chunk : StepM dim spacedim _).Keeps key := by
  refine (keeps_particle other).bind fun p => Keeps.bind (.of_same fun _ => rfl) fun input =>
    Keeps.bind (.of_same fun _ => rfl) fun result => Keeps.bind (.of_same fun _ => rfl) fun _ => ?_
  cases result.1 with
  | ok p' => exact (keeps_putBack p' hne).bind fun _ => .of_pure _
  | error failure => exact .of_pure _

theorem keeps_decodeBatch (from? : Option Nat) {first : Nat} (hlt : key < first) :
    (decodeBatch b from? first : StepM dim spacedim _).Keeps key := by
  refine (keeps_positions from?).bind fun from? => Keeps.bind (.of_same fun _ => rfl) fun input =>
    Keeps.bind (.of_same fun _ => rfl) fun reading => Keeps.bind (.of_same fun _ => rfl) fun _ => ?_
  split
  · exact .of_pure _
  · exact (keeps_storeAll first _ fun hin => by omega).bind fun _ => (keeps_particles _).bind fun _ =>
      Keeps.bind (.of_same fun _ => rfl) fun _ => .of_pure _

/-- Steps on pools, handles, views and buffers. -/
theorem keeps_issue (f : Pool → Attempt PoolError (Handle × Pool)) :
    (issue i dest f : StepM dim spacedim _).Keeps key :=
  (keeps_poolPosition i).bind fun i => (Keeps.actOnPool i f).bind fun _ =>
    Keeps.bind (.of_same fun _ => rfl) fun _ => .of_pure _

theorem keeps_release (other : Nat) : (release i other : StepM dim spacedim _).Keeps key := by
  refine (keeps_poolPosition i).bind fun i => (keeps_keptHandle other).bind fun h =>
    (Keeps.act (World.release i h)).bind fun result => ?_
  cases result with
  | ok left => exact Keeps.bind (.of_same fun _ => rfl) fun _ => .of_pure _
  | error failure => exact .of_pure _

theorem keeps_openView (name : HandleName) (writable : Bool) :
    (openView dest i name writable : StepM dim spacedim _).Keeps key :=
  (keeps_poolPosition i).bind fun i => (keeps_handle name).bind fun h =>
    (Keeps.actOnPool i (·.openView h writable)).bind fun _ => (keeps_shutView dest).bind fun _ =>
      Keeps.bind (.of_same fun _ => rfl) fun _ => .of_pure _

theorem keeps_writeView (other : Nat) (values : List Scalar) :
    (writeView other values : StepM dim spacedim _).Keeps key := by
  refine Keeps.bind (.of_get fun s => keeps_found _ _ s) fun entry => ?_
  obtain ⟨i, v⟩ := entry
  simp only
  split
  · exact (Keeps.actOnPool i _).bind fun _ => .of_pure _
  · exact .of_stop _

/-- **A step that does not touch a key leaves the particle under it as it is**, whatever it does
to the pools. -/
theorem keeps_ofStep {step : Step dim spacedim} (hstep : step.touches key = false) :
    (ofStep step).Keeps key := by
  cases step with
  | makePool config =>
    exact .of_get fun s => ((keeps_pool _).bind fun _ => .of_pure _)
      { s with world := (s.world.addPool config).2 }
  | takePoolId => exact .of_same fun _ => rfl
  | reserve i n => exact (keeps_poolPosition i).bind fun _ => .of_same fun _ => rfl
  | allocate i dest => exact keeps_issue _
  | duplicate i name dest => exact (keeps_handle name).bind fun _ => keeps_issue _
  | release i h => exact keeps_release h
  | writeSlot i name values =>
    exact (keeps_poolPosition i).bind fun i => (keeps_handle name).bind fun h =>
      (Keeps.actOnPool i _).bind fun _ => .of_pure _
  | forge dest h => exact .of_same fun _ => rfl
  | shareHandle name dest => exact (keeps_handle name).bind fun _ => .of_same fun _ => rfl
  | takeHandle h dest =>
    exact (keeps_keptHandle h).bind fun _ => Keeps.bind (.of_same fun _ => rfl) fun _ =>
      Keeps.bind (.of_same fun _ => rfl) fun _ => (keeps_keptHandle h).bind fun _ => .of_pure _
  | openView dest i name writable => exact keeps_openView name writable
  | writeView v values => exact keeps_writeView v values
  | closeView v => exact (keeps_shutView v).bind fun _ => .of_pure _
  | setBuffer b data => exact .of_same fun _ => rfl
  | truncateBuffer b n => exact .of_same fun _ => rfl
  | patchBuffer b start data => exact .of_same fun _ => rfl
  | appendBuffer b dest => exact .of_same fun _ => rfl
  | make p => exact keeps_storeNew _ (ne_of_beq_false hstep)
  | makeAt p location reference id => exact keeps_storeNew _ (ne_of_beq_false hstep)
  | decode p b from? => exact keeps_decode from? (ne_of_beq_false hstep)
  | copy p dest =>
    exact (keeps_particle p).bind fun q => (Keeps.actOnParticle q.copy).bind fun q' =>
      keeps_storeNew q' (ne_of_beq_false hstep)
  | copyFrom p source =>
    exact (keeps_particle source).bind fun q => keeps_revise _ (ne_of_beq_false hstep)
  | take p dest =>
    obtain ⟨hne, hne'⟩ := Bool.or_eq_false_iff.mp hstep
    exact keeps_take (ne_of_beq_false hne) (ne_of_beq_false hne')
  | drop p => exact keeps_drop (ne_of_beq_false hstep)
  | encode p b =>
    refine (keeps_particle p).bind fun q => Keeps.bind (.of_same fun _ => rfl) fun out =>
      Keeps.bind (.of_same fun _ => rfl) fun w => ?_
    split
    · exact .of_same fun _ => rfl
    · exact .of_pure _
  | update p b => exact keeps_update (ne_of_beq_false hstep)
  | save p b chunk room => exact (keeps_particle p).bind fun q => .of_same fun _ => rfl
  | load p b chunk => exact keeps_load chunk (ne_of_beq_false hstep)
  | setLocation p location => exact keeps_revise _ (ne_of_beq_false hstep)
  | setReference p reference => exact keeps_revise _ (ne_of_beq_false hstep)
  | setId p id => exact keeps_revise _ (ne_of_beq_false hstep)
  | releaseSlot p => exact keeps_revise _ (ne_of_beq_false hstep)
  | moveTo p i =>
    exact (keeps_poolPosition i).bind fun i => keeps_revise _ (ne_of_beq_false hstep)
  | setValues p values => exact keeps_revise _ (ne_of_beq_false hstep)
  | setValuesFromView p v =>
    exact (keeps_particle p).bind fun q => (keeps_viewed v).bind fun values =>
      (Keeps.actOnParticle (q.setValues values)).bind fun q' =>
        (keeps_putBack q' (ne_of_beq_false hstep)).bind fun _ => .of_pure _
  | overwrite p values =>
    exact (keeps_particle p).bind fun q => (Keeps.actOnParticle _).bind fun _ => .of_pure _
  | encodeBatch keys b =>
    refine (keeps_particles keys).bind fun ps => Keeps.bind (.of_same fun _ => rfl) fun w =>
      Keeps.bind (.of_same fun _ => rfl) fun out => ?_
    split
    · exact .of_same fun _ => rfl
    · exact .of_pure _
  | decodeBatch b from? first =>
    exact keeps_decodeBatch from? (Nat.lt_of_not_le (of_decide_eq_false hstep))
  | _ => exact .of_same fun s => by rw [exec_look rfl]

/-! ## Batches -/

/-- The particles stored under successive keys are found there. -/
theorem mapM_find? (first : Nat) {f : Nat → Option (Particle dim spacedim)}
    (hf : ∀ k p, made[k]? = some p → f (first + k) = some p) :
    ((List.range made.length).map (first + ·)).mapM f = some made := by
  rw [← List.range'_eq_map_range]
  induction made generalizing first with
  | nil => rfl
  | cons p rest ih =>
    have hfirst : f first = some p := hf 0 p rfl
    have hrest := ih (first + 1) fun k q hk => by
      have hq := hf (k + 1) q hk
      rwa [← Nat.add_assoc, Nat.add_right_comm] at hq
    rw [List.length_cons, List.range'_succ, List.mapM_cons, hfirst, hrest]
    rfl

end StepM

namespace Batch

/-- A reading has a particle for each record of the bytes, or it is refused. -/
theorem run_decode_cases (dim spacedim : Nat) {pool : Option Nat} {w : World}
    (supplied : w.Supplied pool) (d : Bytes) :
    (∃ (made : List (Particle dim spacedim)) (w₁ w' : World),
      encode w₁ made = .ok d ∧ (decode pool d).run w = (⟨.ok made, []⟩, w')) ∨
    ∃ cause left w', (decode pool d).run w =
      ((⟨Attempt.refuse cause, left⟩ : Reading dim spacedim), w') := by
  obtain ⟨ps, w₁, left, accepted, hstop⟩ := exists_accepted dim spacedim supplied d
  by_cases hne : left = []
  · subst hne
    exact .inl ⟨ps, w₁, _, accepted.encode_eq supplied, accepted.run_ok supplied⟩
  · obtain ⟨cause, hcause⟩ := hstop hne
    exact .inr ⟨cause, left, _, accepted.run_refused supplied hne hcause⟩

end Batch

namespace Session

/-- A batch that is read is stored under successive keys and shown as it is stored, and a batch
that is not read leaves all particles alone. -/
theorem perform_decodeBatch (sound : s.Sound False) (b : Nat) (from? : Option Nat) (first : Nat) :
    (∃ answer s', s.perform (.decodeBatch b from? first) = (answer, s') ∧
      s'.particles = s.particles ∧
      (answer = .unknown "pool" ∨ ∃ cause n, answer = .transferred (Attempt.refuse cause) n)) ∨
    ∃ made w₁ s₁ s', Batch.encode w₁ made = .ok (s.bytes b) ∧ s₁.particles = s.particles ∧
      (storeAll first made).exec s₁ = (.ok ⟨⟩, s') ∧
      s.perform (.decodeBatch b from? first) =
        (.batchDecoded (made.map (·.snapshot s'.world)) 0, s') := by
  rw [perform_eq]
  simp only [ofStep]
  unfold decodeBatch
  rw [exec_positions_bind]
  by_cases hpool : ∀ i, from? = some i → (s.world.pool? i).isSome
  · have supplied := sound.supplied hpool
    rw [if_pos hpool, exec_buffer_bind, StepM.exec_bind, exec_modifyGet]
    rcases Batch.run_decode_cases dim spacedim supplied (s.bytes b) with
      ⟨made, w₁, w', henc, hrun⟩ | ⟨cause, left, w', hrun⟩
    · simp only [hrun]
      rw [exec_keepBuffer_bind]
      obtain ⟨reading, w'', hrun', htrade⟩ := Batch.decodeOnto_trade
        ([] : List (Particle dim spacedim)) sound.wellFormed supplied.pool (by simp) (s.bytes b)
      unfold Batch.decode at hrun
      rw [hrun] at hrun'
      cases hrun'
      have t := sound.2.trade [] _ htrade.1 htrade.2
      obtain ⟨s', hstore, -⟩ := sound_storeAll first
        (s := { s with world := w', buffers := s.buffers.insert b [] }) sound.1 t
      refine .inr ⟨made, w₁, { s with world := w', buffers := s.buffers.insert b [] }, s', henc, rfl,
        hstore, ?_⟩
      have hthere := mapM_find? first fun k p hk => find?_storeAll hstore hk
      simp only
      rw [StepM.exec_bind, hstore]
      simp only
      rw [StepM.exec_bind, exec_particles, hthere]
      rfl
    · simp only [hrun]
      exact .inl ⟨_, _, rfl, rfl, .inr ⟨cause, left.length, rfl⟩⟩
  · rw [if_neg hpool]
    exact .inl ⟨_, s, rfl, rfl, .inl rfl⟩

end Session

end ParticleStore
