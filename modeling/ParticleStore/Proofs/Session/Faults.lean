/-
ParticleStore.Proofs.Session.Faults — no operation meets a fault.

The conditions that the pools rely on are tested where they are relied on, and a test
that fails ends the operation in a fault, which the answer of the step reports
(`Answer.fault?`); no part of a step takes a fault back. So a session in which no answer
reports a fault is one in which every index and every range was in bounds, every copy
had as many values as its slot, and no count of live slots went below zero.

A step `Answers` if it reports no fault, whether one of its parts ends it or it comes to its end.
What it does along the way is `decided` by checks that have causes, and no faults.
-/
import ParticleStore.Proofs.Plain.Batches
import ParticleStore.Proofs.Session.Freezing
import ParticleStore.Proofs.Session.Keeping
import ParticleStore.Proofs.Session.Parts

namespace ParticleStore

open ParticleStore.Action Particle World StepM

variable {dim spacedim : Nat} {α β : Type} {ε ε' : Type} {w w' : World} {i key dest b : Nat}
  {pl : Pool} {p : Particle dim spacedim} {ps made : List (Particle dim spacedim)}
  {s : Session dim spacedim}

/-! ## What reports a fault -/

/-- The fault behind a failure, if there is one. -/
def Failure.fault? : Failure ε → Option Fault
  | refused _ => none
  | broken fault => some fault

/-- The fault that an attempt ended in. -/
def Attempt.fault? : Attempt ε α → Option Fault
  | .ok _ => none
  | .error failure => failure.fault?

/-- The fault that an answer reports. -/
def Answer.fault? : Answer dim spacedim → Option Fault
  | .poolFailed failure => failure.fault?
  | .failed failure => failure.fault?
  | .released outcome _ | .transferred outcome _ | .batchEncoded outcome _ _ =>
    Attempt.fault? outcome
  | .batchDecoded particles _ => particles.findSome? fun shown => Attempt.fault? shown.values
  | _ => none

namespace Attempt

variable {x : Attempt ε α} {f : α → Attempt ε β}

theorem fault?_decided (cause : Option ε) (a : α) : fault? (decided cause a) = none := by
  cases cause <;> rfl

theorem fault?_bind (hx : fault? x = none) (hf : ∀ a, fault? (f a) = none) :
    fault? (x >>= f) = none := by
  cases x with
  | ok a => exact hf a
  | error failure => exact hx

end Attempt

open Attempt

/-! ## Particles as records -/

namespace Particle

theorem fault?_values (wf : w.WellFormed) (placed : p.Placed w) : fault? (p.values w) = none := by
  cases hs : p.slot? with
  | none =>
    unfold values
    rw [hs]
    rfl
  | some slot =>
    obtain ⟨pl, hp, -⟩ := placed.slot hs
    rw [values_of_slot hs hp (wf.pool _ pl hp)]
    exact fault?_decided _ _

theorem fault?_encode (wf : w.WellFormed) (placed : p.Placed w) : fault? (p.encode w) = none := by
  have hrecord : fault? (p.toRecord w) = none := by
    unfold toRecord
    split
    · exact fault?_bind (fault?_values wf placed) fun _ => rfl
    · rfl
  unfold encode
  refine fault?_bind hrecord fun r => ?_
  cases r.encode <;> rfl

theorem fault?_save (wf : w.WellFormed) (placed : p.Placed w) (chunk room : Option Nat) :
    fault? (p.save w chunk room).1 = none := by
  have hencode := fault?_encode wf placed
  unfold save
  cases he : p.encode w with
  | error failure =>
    rw [he] at hencode
    exact hencode
  | ok bytes =>
    simp only
    obtain ⟨outcome, taken⟩ := Stream.deliver chunk room bytes
    cases outcome <;> rfl

/-- The handle is the invalid one, or it was issued by the particle's own pool. -/
def Consistent (w : World) (p : Particle dim spacedim) : Prop :=
  p.handle.isValid = true → ∃ i pl, p.pool = some i ∧ w.pool? i = some pl ∧ p.handle.pool = pl.id

theorem Placed.consistent (placed : p.Placed w) : p.Consistent w := by
  intro hvalid
  cases hpool : p.pool with
  | none =>
    rw [placed.handle hpool] at hvalid
    cases hvalid
  | some i =>
    obtain ⟨pl, hp, hid⟩ := placed.pool i hpool
    exact ⟨i, pl, rfl, hp, hid hvalid⟩

end Particle

namespace Batch

variable {pool : Option Nat}

theorem fault?_encode (wf : w.WellFormed) (placed : ∀ p ∈ ps, p.Placed w) :
    fault? (encode w ps) = none := by
  induction ps with
  | nil => rfl
  | cons p rest ih =>
    have hfirst := Particle.fault?_encode wf (placed p List.mem_cons_self)
    have hrest := ih fun q hq => placed q (List.mem_cons_of_mem p hq)
    exact fault?_bind hfirst fun _ => fault?_bind hrest fun _ => rfl

end Batch

/-! ## Parts of a step -/

namespace StepM

/-- A step whose answer reports no fault, wherever it ends. -/
abbrev Answers (m : StepM dim spacedim (Answer dim spacedim)) (s : Session dim spacedim) : Prop :=
  m.ComesTo s (fun answer _ => answer.fault? = none) fun answer _ => answer.fault? = none

theorem answers_iff {m : StepM dim spacedim (Answer dim spacedim)} :
    m.Answers s ↔ (finish (m.exec s)).1.fault? = none := by
  unfold Answers ComesTo
  cases m.exec s with
  | mk result s' => cases result <;> rfl

/-- A view is of a slot that is there. -/
theorem fault?_viewed (wf : s.world.WellFormed) (viewing : s.Viewing) {answer : Answer dim spacedim}
    (hexec : (viewed key).exec s = (.error answer, s)) : answer.fault? = none := by
  unfold viewed at hexec
  rw [exec_view_bind] at hexec
  cases hv : s.views.find? key with
  | none =>
    rw [hv] at hexec
    cases hexec
    rfl
  | some v =>
    obtain ⟨pl, hp, hlt, -⟩ := Session.pool_of_view viewing hv
    rw [hv] at hexec
    simp only at hexec
    rw [exec_pool_bind, hp] at hexec
    simp only [Pool.slotValues_eq ((wf.pool _ pl hp).spans hlt)] at hexec
    cases hexec

/-- A view that is shut lets its pool go. -/
theorem answers_shutView_bind {f : Bool → StepM dim spacedim (Answer dim spacedim)}
    (shown : ∀ v, s.views.find? key = some v → ∃ pl, s.world.pool? v.1 = some pl)
    (hf : ∀ shut s', (f shut).Answers s') : (shutView key >>= f).Answers s := by
  have hexec : (shutView key).exec s = _ := exec_shutView
  cases hv : s.views.find? key with
  | none =>
    rw [hv] at hexec
    exact .bind_of_exec hexec (hf _ _)
  | some v =>
    obtain ⟨pl, hp⟩ := shown v hv
    rw [hv] at hexec
    simp only [hp] at hexec
    exact .bind_of_exec hexec (hf _ _)

/-! ## Steps -/

theorem answers_issue {f : Pool → Attempt PoolError (Handle × Pool)}
    (hf : ∀ pl, s.world.pool? i = some pl → ∃ cause a pl', f pl = .decided cause (a, pl')) :
    (issue i dest f).Answers s := by
  refine .poolPosition_bind rfl fun pl hp => ?_
  obtain ⟨cause, h, pl', he⟩ := hf pl hp
  exact .actOnPool_bind hp he (fun _ => rfl) fun _ => rfl

theorem answers_revise {f : Particle dim spacedim → Action ParticleError (Particle dim spacedim)}
    {post : Particle dim spacedim → Particle dim spacedim → World → Prop}
    (hf : ∀ p, s.particles.find? key = some p → (f p).Settles s.world (post p)) :
    (revise key f).Answers s :=
  .particle_bind rfl fun p hp => .actOnParticle_bind (hf p hp) (fun _ => rfl) fun _ _ _ => rfl

theorem answers_storeNew {sole : Prop} (t : Tenancy sole s.world ps)
    (hsub : s.particles.values ⊆ ps) : (storeNew key p).Answers s :=
  .bind_of_exec (exec_store_of_tenancy key t hsub) rfl

section Steps

variable (sound : s.Sound False)

include sound

theorem answers_release : (release i key).Answers s := by
  refine .poolPosition_bind rfl fun pl hp => .keptHandle_bind rfl fun h _ => ?_
  unfold ComesTo
  rw [exec_act_bind, exec_release hp (sound.wellFormed.pool i pl hp)]
  cases pl.flawed? h <;> rfl

theorem answers_readSlot (name : HandleName) : (readSlot i name).Answers s := by
  refine .pool_bind rfl fun pl hp => .handle_bind rfl fun h _ => ?_
  rw [Pool.values_eq (sound.wellFormed.pool i pl hp)]
  cases (pl.flawed? h).or pl.written? <;> rfl

theorem answers_writeSlot (name : HandleName) (values : List Scalar) :
    (writeSlot i name values).Answers s :=
  .poolPosition_bind rfl fun pl hp => .handle_bind rfl fun _ _ =>
    .actOnPool_bind hp (Pool.overwrite_eq (sound.wellFormed.pool i pl hp)) (fun _ => rfl) fun _ => rfl

theorem answers_copy : (copy key dest).Answers s := by
  refine .particle_bind rfl fun p hp => ?_
  refine .actOnParticle_bind (copy_settles sound.wellFormed (sound.placed hp)) (fun _ => rfl)
    fun p' w' made => ?_
  exact answers_storeNew (sound.2.born made) (List.subset_cons_self _ _)

theorem answers_take : (take key dest).Answers s := by
  refine .particle_bind rfl fun p hp => ?_
  exact answers_storeNew (s := { s with particles := s.particles.insert key p.take.2 })
    (sound.taken hp) (List.subset_cons_self _ _)

theorem answers_drop : (drop key).Answers s := by
  refine .bind_of_exec exec_get ?_
  cases hp : s.particles.find? key with
  | none => rfl
  | some p =>
    have hdrop := exec_drop (ε := ParticleError) sound.wellFormed (sound.placed hp)
    exact .bind_of_exec (exec_set _) (.actOnParticle_bind_of_exec hdrop rfl)

theorem answers_encode : (encode key b).Answers s := by
  refine .particle_bind rfl fun p hp => ?_
  have hencode := Particle.fault?_encode sound.wellFormed (sound.placed hp)
  unfold ComesTo
  rw [exec_buffer_bind, exec_world_bind]
  cases he : p.encode s.world with
  | ok bytes => rfl
  | error failure =>
    rw [he] at hencode
    exact hencode

theorem answers_save (chunk room : Option Nat) : (save key b chunk room).Answers s :=
  .particle_bind rfl fun _ hp =>
    Particle.fault?_save sound.wellFormed (sound.placed hp) chunk room

theorem answers_update : (update key b).Answers s :=
  .particle_bind rfl fun _ hp => .buffer_bind <|
    .act_bind (update_settles _ sound.wellFormed (sound.placed hp)) (fun _ => rfl) fun _ _ _ => rfl

theorem answers_load (chunk : Option Nat) : (load key b chunk).Answers s := by
  refine .particle_bind rfl fun p hp => ?_
  obtain ⟨result, left, w', he, -, hpost⟩ :=
    load_settles sound.wellFormed (sound.placed hp) chunk (s.bytes b)
  unfold ComesTo
  rw [exec_buffer_bind, exec_bind, exec_modifyGet]
  simp only [he]
  rw [exec_keepBuffer_bind]
  cases result with
  | ok p' => rfl
  | error failure =>
    obtain ⟨-, cause, rfl⟩ := hpost
    rfl

theorem answers_decode (from? : Option Nat) : (decode key b from?).Answers s := by
  refine .positions_bind rfl fun hpool => .buffer_bind <|
    .act_bind (ofBytes_settles dim spacedim _ sound.wellFormed hpool) (fun _ => rfl) ?_
  rintro ⟨p, rest⟩ w' hmade
  have t := sound.2.born hmade
  exact .bind_of_exec (exec_modify _)
    (.bind_of_exec (exec_store_of_tenancy key (by exact t) (List.subset_cons_self _ _)) rfl)

theorem answers_encodeBatch (keys : List Nat) : (encodeBatch keys b).Answers s := by
  refine .particles_bind rfl fun ps hps => ?_
  have hencode := Batch.fault?_encode sound.wellFormed fun p hp =>
    sound.2.placed p (Session.mem_values_of_mapM hps hp)
  unfold ComesTo
  rw [exec_world_bind, exec_buffer_bind]
  cases he : Batch.encode s.world ps with
  | ok bytes => rfl
  | error failure =>
    rw [he] at hencode
    exact hencode

/-- The particles of a batch are shown as they are found where they were stored. -/
theorem answers_decodeBatch (from? : Option Nat) (first : Nat) :
    (decodeBatch b from? first).Answers s := by
  have sound' := sound.perform (.decodeBatch b from? first)
  refine answers_iff.mpr ?_
  rw [← show ofStep (.decodeBatch b from? first) = decodeBatch b from? first from rfl, ← perform_eq]
  rcases Session.perform_decodeBatch sound b from? first with
    ⟨answer, s', hperform, -, hanswer⟩ | ⟨made, w₁, s₁, s', -, -, hstore, hperform⟩
  · rw [hperform]
    rcases hanswer with rfl | ⟨cause, n, rfl⟩ <;> rfl
  · rw [hperform] at sound' ⊢
    show (made.map fun q => q.snapshot s'.world).findSome? _ = none
    rw [List.findSome?_map, List.findSome?_eq_none_iff]
    intro q hq
    obtain ⟨k, hk⟩ := List.mem_iff_getElem?.mp hq
    exact fault?_values sound'.wellFormed (sound'.placed (find?_storeAll hstore hk))

theorem answers_setValuesFromView (viewing : s.Viewing) (v : Nat) :
    (setValuesFromView key v).Answers s := by
  refine .particle_bind rfl fun p hp => ?_
  refine .viewed_bind (fun _ => fault?_viewed sound.wellFormed viewing) fun values => ?_
  exact .actOnParticle_bind (setValues_settles values sound.wellFormed (sound.placed hp))
    (fun _ => rfl) fun _ _ _ => rfl

/-! ## Steps on views -/

variable (viewing : s.Viewing)

include viewing

theorem answers_readView : (ofStep (.readView key : Step dim spacedim)).Answers s :=
  .viewed_bind (fun _ => fault?_viewed sound.wellFormed viewing) fun _ => rfl

theorem answers_writeView (values : List Scalar) : (writeView key values).Answers s := by
  unfold Answers ComesTo writeView
  rw [exec_view_bind]
  cases hv : s.views.find? key with
  | none => rfl
  | some v =>
    obtain ⟨pl, hp, hlt, -⟩ := Session.pool_of_view viewing hv
    have hspans := (sound.wellFormed.pool _ pl hp).spans hlt
    simp only
    cases v.2.writable with
    | false => rfl
    | true =>
      simp only [if_true]
      rw [exec_actOnPool_bind, exec_onPool, hp]
      simp only [Pool.overwriteAt_eq hspans]
      rfl

omit sound in
theorem answers_closeView : (ofStep (.closeView key : Step dim spacedim)).Answers s := by
  refine answers_shutView_bind (fun v hv => ?_) fun _ _ => rfl
  obtain ⟨pl, hp, -, -⟩ := Session.pool_of_view viewing hv
  exact ⟨pl, hp⟩

theorem answers_openView (name : HandleName) (writable : Bool) :
    (openView dest i name writable).Answers s := by
  refine .poolPosition_bind rfl fun pl hp => .handle_bind rfl fun h _ => ?_
  refine .actOnPool_bind hp (Pool.openView_eq (sound.wellFormed.pool i pl hp) writable)
    (fun _ => rfl) fun _ => ?_
  refine answers_shutView_bind (fun v hv => ?_) fun _ _ => rfl
  obtain ⟨q, hq, -, -⟩ := Session.pool_of_view viewing hv
  by_cases hi : v.1 = i
  · rw [hi]
    exact ⟨_, pool?_setPool_self (by simp [hp])⟩
  · exact ⟨q, (pool?_setPool_of_ne hi).trans hq⟩

/-- **No step ends in a fault.** -/
theorem answers_ofStep (step : Step dim spacedim) : (ofStep step).Answers s := by
  have wf := sound.wellFormed
  cases step with
  | makePool config =>
    exact .bind_of_exec exec_get (.bind_of_exec (exec_set _) (.pool_bind rfl fun _ _ => rfl))
  | takePoolId => rfl
  | reserve i n => exact .poolPosition_bind rfl fun _ _ => rfl
  | hasCapacity i n => exact .pool_bind rfl fun _ _ => rfl
  | allocate i dest => exact answers_issue fun pl hp => ⟨_, _, _, Pool.allocate_eq (wf.pool i pl hp)⟩
  | duplicate i name dest =>
    exact .handle_bind rfl fun h _ =>
      answers_issue fun pl hp => ⟨_, _, _, Pool.duplicate_eq (wf.pool i pl hp)⟩
  | release i key => exact answers_release sound
  | readSlot i name => exact answers_readSlot sound name
  | writeSlot i name values => exact answers_writeSlot sound name values
  | isLive i name => exact .pool_bind rfl fun _ _ => .handle_bind rfl fun _ _ => rfl
  | reportPool i => exact .pool_bind rfl fun _ _ => rfl
  | forge dest h => rfl
  | shareHandle name dest => exact .handle_bind rfl fun _ _ => rfl
  | takeHandle key dest => exact .keptHandle_bind rfl fun _ _ => .keptHandle_bind rfl fun _ _ => rfl
  | describeHandle name => exact .handle_bind rfl fun _ _ => rfl
  | sameHandle name other => exact .handle_bind rfl fun _ _ => .keptHandle_bind rfl fun _ _ => rfl
  | openView dest i name writable => exact answers_openView sound viewing name writable
  | readView v => exact answers_readView sound viewing
  | writeView v values => exact answers_writeView sound viewing values
  | closeView v => exact answers_closeView viewing
  | setBuffer b data => rfl
  | truncateBuffer b n => rfl
  | patchBuffer b start data => rfl
  | appendBuffer b dest => rfl
  | readBuffer b => rfl
  | make p => exact answers_storeNew sound.2 (List.Subset.refl _)
  | makeAt p location reference id => exact answers_storeNew sound.2 (List.Subset.refl _)
  | decode p b from? => exact answers_decode sound from?
  | copy p dest => exact answers_copy sound
  | copyFrom p source =>
    exact .particle_bind rfl fun other hother => answers_revise fun p hp =>
      copyFrom_settles wf (sound.placed hp) (sound.placed hother)
  | take p dest => exact answers_take sound
  | drop p => exact answers_drop sound
  | encode p b => exact answers_encode sound
  | update p b => exact answers_update sound
  | save p b chunk room => exact answers_save sound chunk room
  | load p b chunk => exact answers_load sound chunk
  | setLocation p location => exact .particle_bind rfl fun _ _ => rfl
  | setReference p reference => exact .particle_bind rfl fun _ _ => rfl
  | setId p id => exact .particle_bind rfl fun _ _ => rfl
  | releaseSlot p => exact answers_revise fun p hp => releaseSlot_settles wf (sound.placed hp)
  | look p => rfl
  | moveTo p i =>
    exact .poolPosition_bind rfl fun pl ht => answers_revise fun p hp =>
      moveTo_settles wf (sound.placed hp) ht
  | setValues p values =>
    exact answers_revise fun p hp => setValues_settles values wf (sound.placed hp)
  | setValuesFromView p v => exact answers_setValuesFromView sound viewing v
  | overwrite p values =>
    exact .particle_bind rfl fun p hp =>
      .actOnParticle_bind (overwrite_settles values wf (sound.placed hp)) (fun _ => rfl)
        fun _ _ _ => rfl
  | report p => exact .particle_bind rfl fun _ _ => rfl
  | keys p => exact .particle_bind rfl fun _ _ => rfl
  | encodeBatch keys b => exact answers_encodeBatch sound keys
  | decodeBatch b from? first => exact answers_decodeBatch sound from? first

end Steps

end StepM

namespace Session

theorem fault?_perform (sound : s.Sound False) (viewing : s.Viewing) (step : Step dim spacedim) :
    (s.perform step).1.fault? = none := by
  rw [perform_eq]
  exact answers_iff.mp (answers_ofStep sound viewing step)

theorem fault?_run (sound : s.Sound False) (viewing : s.Viewing) (steps : List (Step dim spacedim)) :
    ∀ answer ∈ (s.run steps).1, answer.fault? = none := by
  induction steps generalizing s with
  | nil => simp [run]
  | cons step rest ih =>
    have hlater := ih (sound.perform step) (viewing_perform sound.wellFormed viewing step)
    intro answer hanswer
    rcases List.mem_cons.mp hanswer with rfl | hrest
    · exact fault?_perform sound viewing step
    · exact hlater answer hrest

/-- What the operations rely on, and what comes of it. -/
structure Safe (s : Session dim spacedim) : Prop where
  /-- No step ends in a fault. -/
  answers : ∀ step, (s.perform step).1.fault? = none
  /-- No particle's values are read with a fault. -/
  values : ∀ key p, s.particles.find? key = some p → fault? (p.values s.world) = none
  /-- No particle holds a handle that another pool than its own has issued. -/
  consistent : ∀ key p, s.particles.find? key = some p → p.Consistent s.world
  /-- Nor does one that a reading of a buffer makes, whether it is kept or dropped again. -/
  read : ∀ pool d ps w₁ left, (∀ i, pool = some i → (s.world.pool? i).isSome) →
    Batch.Accepted pool s.world d ps w₁ left →
    ∀ q ∈ (ps : List (Particle dim spacedim)), q.Consistent w₁
  /-- A handle that a pool accepts names a slot of its table, which has its scalars and is counted. -/
  located : ∀ i pl h j, s.world.pool? i = some pl → pl.locate h = .ok j →
    j < pl.slots.length ∧ j * pl.stride + pl.stride ≤ pl.scalars.length ∧ 0 < pl.live
  /-- A slot that waits to be used again is not live, and has its scalars. -/
  waiting : ∀ i pl index, s.world.pool? i = some pl → index ∈ pl.free →
    (∃ slot, pl.slots[index.toNat]? = some slot ∧ slot.live = false) ∧
      index.toNat * pl.stride + pl.stride ≤ pl.scalars.length
  /-- A view that is open shows scalars that are there. -/
  viewed : ∀ key i v, s.views.find? key = some (i, v) →
    ∃ pl, s.world.pool? i = some pl ∧ v.position * pl.stride + pl.stride ≤ pl.scalars.length

theorem Sound.safe (sound : s.Sound False) (viewing : s.Viewing) : s.Safe where
  answers := fault?_perform sound viewing
  values _ _ hp := fault?_values sound.wellFormed (sound.placed hp)
  consistent _ _ hp := (sound.placed hp).consistent
  read pool d ps w₁ left hpool accepted q hq :=
    ((accepted.fills (sound.supplied hpool)).2 q hq).1.consistent
  located i pl h j hp hlocate := by
    have wf := sound.wellFormed.pool i pl hp
    obtain ⟨-, -, hlive⟩ := (Pool.locate_eq_ok_iff wf).mp hlocate
    exact ⟨hlive.lt, wf.spans hlive.lt, Pool.live_pos wf hlive⟩
  waiting i pl index hp hmem := by
    have wf := sound.wellFormed.pool i pl hp
    obtain ⟨slot, hslot, hdead⟩ := (wf.mem_free index).mp hmem
    exact ⟨⟨slot, hslot, hdead⟩, wf.spans (List.getElem?_eq_some_iff.mp hslot).1⟩
  viewed key i v hv := by
    obtain ⟨pl, hp, hlt, -⟩ := pool_of_view viewing hv
    exact ⟨pl, hp, (sound.wellFormed.pool i pl hp).spans hlt⟩

/-- **No operation meets a fault.** After any run of steps, with handles of any origin, any bytes
and any views open, every condition that the operations rely on holds. -/
theorem safe_run (steps : List (Step dim spacedim)) :
    (∀ answer ∈ (run ({} : Session dim spacedim) steps).1, answer.fault? = none) ∧
      (run ({} : Session dim spacedim) steps).2.Safe :=
  ⟨fault?_run sound_empty viewing_empty steps,
    (sound_reached steps).safe (viewing_run steps sound_empty viewing_empty)⟩

end Session

end ParticleStore
