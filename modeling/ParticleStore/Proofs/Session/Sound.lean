/-
ParticleStore.Proofs.Session.Sound — what every step of a session keeps.

A session is `Sound` if its particles live in its world as `Tenancy` says. Every step
keeps a session sound, whatever it is refused for (`sound_perform`). The particles stay
the sole holders of slots as long as no slot is taken or released by its bare handle
(`Step.isBare`); copying, forging and moving handles does no harm by itself.
-/
import ParticleStore.Proofs.Session.Exec
import ParticleStore.Proofs.Session.Tenancy

namespace ParticleStore

open ParticleStore.Action Particle World StepM

variable {dim spacedim : Nat} {sole : Prop} {s s' : Session dim spacedim} {key dest i b : Nat}
  {p old : Particle dim spacedim} {w : World}

/-- Steps that take or release a slot by its bare handle. -/
def Step.isBare : Step dim spacedim → Bool
  | .allocate .. | .duplicate .. | .release .. => true
  | _ => false

/-- The steps that only look. -/
def Step.isLook : Step dim spacedim → Bool
  | .hasCapacity .. | .readSlot .. | .isLive .. | .reportPool .. | .describeHandle .. |
    .sameHandle .. | .readView .. | .readBuffer .. | .look .. | .report .. | .keys .. => true
  | _ => false

namespace Session

/-- The particles of a session live together in its world. -/
def Sound (sole : Prop) (s : Session dim spacedim) : Prop :=
  s.particles.Ascending ∧ Tenancy sole s.world s.particles.values

theorem sound_empty : Sound sole ({} : Session dim spacedim) :=
  ⟨Registry.ascending_empty, .empty⟩

namespace Sound

theorem wellFormed (sound : s.Sound sole) : s.world.WellFormed := sound.2.wellFormed

theorem placed (sound : s.Sound sole) (hp : s.particles.find? key = some p) : p.Placed s.world :=
  sound.2.placed p (Registry.mem_values_of_find? hp)

/-- The particle under a key, and the others. -/
theorem split (sound : s.Sound sole) (hp : s.particles.find? key = some p) :
    Tenancy sole s.world (p :: (s.particles.erase key).values) :=
  sound.2.perm (Registry.values_of_find? sound.1 hp)

/-- A particle put under a key joins the particles under the others. -/
theorem join (sound : s.Sound sole) (t : Tenancy sole w (p :: (s.particles.erase key).values)) :
    (s.particles.insert key p).Ascending ∧ Tenancy sole w (s.particles.insert key p).values :=
  ⟨Registry.ascending_insert sound.1 key p, t.perm (Registry.values_insert sound.1 key p).symm⟩

/-- A particle moved out of its place lives beside the one left there, and the others. -/
theorem taken (sound : s.Sound sole) (hp : s.particles.find? key = some p) :
    Tenancy sole s.world (p.take.1 :: (s.particles.insert key p.take.2).values) :=
  (sound.split hp).taken.perm ((Registry.values_insert sound.1 key p.take.2).symm.cons _)

end Sound

/-- Storing a particle that lives beside the others, and beside some more in hand. -/
theorem tenancy_stored (key : Nat) (more : List (Particle dim spacedim))
    (hasc : s.particles.Ascending) (t : Tenancy sole s.world (p :: s.particles.values ++ more)) :
    Tenancy sole (s.stored key p).world ((s.stored key p).particles.values ++ more) := by
  have hinsert := (Registry.values_insert hasc key p).append_right more
  unfold stored
  cases hold : s.particles.find? key with
  | none =>
    rw [Registry.erase_of_find?_none hold] at hinsert
    exact t.perm hinsert.symm
  | some old =>
    have hvalues := ((Registry.values_of_find? hasc hold).cons p).trans (.swap ..)
    have hdropped := (t.perm (hvalues.append_right more)).dropped
    exact hdropped.perm hinsert.symm

theorem sound_stored (hasc : s.particles.Ascending)
    (t : Tenancy sole s.world (p :: s.particles.values)) : (s.stored key p).Sound sole := by
  have hstored := tenancy_stored key [] hasc (by simpa using t)
  rw [List.append_nil] at hstored
  exact ⟨Registry.ascending_insert hasc key p, hstored⟩

end Session

namespace StepM

open Session

theorem exec_store_of_tenancy {ps : List (Particle dim spacedim)} (key : Nat)
    (t : Tenancy sole s.world ps) (hsub : s.particles.values ⊆ ps) :
    (store key p).exec s = (.ok ⟨⟩, s.stored key p) :=
  exec_store t.wellFormed fun old hold =>
    t.placed old (hsub (Registry.mem_values_of_find? hold))

theorem sound_storeNew (hasc : s.particles.Ascending)
    (t : Tenancy sole s.world (p :: s.particles.values)) :
    ((storeNew key p).exec s).2.Sound sole := by
  unfold storeNew
  rw [exec_bind, exec_store_of_tenancy _ t (List.subset_cons_self _ _)]
  exact sound_stored hasc t

theorem sound_storeAll {ps : List (Particle dim spacedim)} (key : Nat) (hasc : s.particles.Ascending)
    (t : Tenancy sole s.world (ps ++ s.particles.values)) :
    ∃ s', (storeAll key ps).exec s = (.ok ⟨⟩, s') ∧ s'.Sound sole := by
  induction ps generalizing s key with
  | nil => exact ⟨s, rfl, hasc, t⟩
  | cons p rest ih =>
    have t' : Tenancy sole s.world (p :: s.particles.values ++ rest) :=
      t.perm (List.perm_append_comm.cons p)
    have hstore := exec_store_of_tenancy (p := p) key t' (by
      intro q hq
      exact List.mem_append_left _ (List.mem_cons_of_mem _ hq))
    have hstored := tenancy_stored key _ hasc t'
    obtain ⟨s', hrest, sound⟩ := ih (s := s.stored key p) (key + 1)
      (Registry.ascending_insert hasc key p) (hstored.perm List.perm_append_comm)
    refine ⟨s', ?_, sound⟩
    unfold storeAll
    rw [exec_bind, hstore]
    exact hrest

/-! ## Steps on pools and views -/

section Steps

variable (sound : s.Sound sole)

include sound

/-- A pool changes, and the same handles show something. -/
theorem sound_setPool {pl pl' : Pool} (hp : s.world.pool? i = some pl) (alike : pl.Alike pl') :
    Session.Sound sole { s with world := s.world.setPool i pl' } :=
  ⟨sound.1, sound.2.setPool hp alike⟩

/-- An operation on a pool that leaves the same handles good. -/
theorem sound_onPool {α : Type} {f : Pool → Attempt PoolError (α × Pool)}
    (hf : ∀ pl a pl', pl.WellFormed → f pl = .ok (a, pl') → pl.Alike pl') :
    Session.Sound sole { s with world := ((World.onPool i f).exec s.world).2 } := by
  rw [World.exec_onPool]
  cases hp : s.world.pool? i with
  | none => exact sound
  | some pl =>
    simp only
    cases hresult : f pl with
    | error failure => exact sound
    | ok result =>
      exact sound_setPool sound hp
        (hf pl result.1 result.2 (sound.wellFormed.pool i pl hp) hresult)

theorem sound_makePool (config : PoolConfig) : ((makePool config).exec s).2.Sound sole := by
  unfold makePool
  rw [exec_bind, exec_get]
  simp only
  rw [exec_bind, exec_set]
  simp only
  rw [exec_pool_bind]
  have hsound : Session.Sound sole { s with world := (s.world.addPool config).2 } :=
    ⟨sound.1, sound.2.addPool config⟩
  split
  · exact hsound
  · exact hsound

theorem sound_reserve (n : Nat) : ((reserve i n).exec s).2.Sound sole := by
  unfold reserve
  rw [exec_poolPosition_bind]
  cases hp : s.world.pool? i with
  | none => exact sound
  | some pl =>
    obtain ⟨events, hquiet, heq⟩ := World.reserve_eq hp n
    have hreserved := sound.2.setPool hp (Pool.alike_reserve (sound.wellFormed.pool i pl hp) n)
    simp only
    rw [exec_bind, exec_modify]
    simp only
    rw [heq]
    exact ⟨sound.1, hreserved.noted hquiet⟩

theorem sound_shutView (key : Nat) : ((shutView key).exec s).2.Sound sole := by
  rw [exec_shutView]
  cases s.views.find? key with
  | none => exact sound
  | some entry =>
    obtain ⟨j, v⟩ := entry
    simp only
    cases hp : s.world.pool? j with
    | none => exact sound
    | some pl =>
      exact sound_setPool sound hp (Pool.alike_closeView (sound.wellFormed.pool j pl hp) v)

theorem sound_openView (name : HandleName) (writable : Bool) :
    ((openView dest i name writable).exec s).2.Sound sole := by
  unfold openView
  rw [exec_poolPosition_bind]
  cases s.world.pool? i with
  | none => exact sound
  | some pl =>
    simp only
    rw [exec_handle_bind]
    cases s.named? name with
    | none => exact sound
    | some h =>
      have hopened := sound_onPool (i := i) (f := (·.openView h writable)) sound
        fun pl a pl' wf hopen => by
          rw [Pool.openView_eq wf, Attempt.decided_eq_ok_iff] at hopen
          obtain ⟨-, hresult⟩ := hopen
          cases hresult
          exact Pool.alike_viewOpened wf writable
      simp only
      rw [exec_actOnPool_bind]
      cases hact : (World.onPool i (·.openView h writable)).exec s.world with
      | mk result w =>
        rw [hact] at hopened
        cases result with
        | error failure => exact hopened
        | ok v =>
          have hshut := sound_shutView hopened dest
          simp only
          rw [exec_bind]
          cases hview : (shutView dest).exec { s with world := w } with
          | mk result s' =>
            rw [hview] at hshut
            cases result <;> exact hshut

/-- A write anywhere in a pool leaves the same handles good. -/
theorem sound_writeView (values : List Scalar) : ((writeView key values).exec s).2.Sound sole := by
  unfold writeView
  rw [exec_view_bind]
  cases s.views.find? key with
  | none => exact sound
  | some entry =>
    obtain ⟨j, v⟩ := entry
    have hwritten := sound_onPool (i := j) (f := (·.overwriteAt v.position values)) sound
      fun pl a pl' wf hwrite => by
        by_cases hspans : pl.Spans v.position
        · rw [Pool.overwriteAt_eq hspans] at hwrite
          cases hwrite
          exact Pool.alike_withBlock wf hspans (by rw [length_overlay, Pool.length_block hspans])
        · obtain ⟨fault, hfault⟩ := Pool.overwriteAt_of_not_spans values hspans
          rw [hfault] at hwrite
          cases hwrite
    simp only
    split
    · rw [exec_actOnPool_bind]
      cases hact : (World.onPool j (·.overwriteAt v.position values)).exec s.world with
      | mk result w =>
        rw [hact] at hwritten
        cases result <;> exact hwritten
    · exact sound

theorem sound_writeSlot (name : HandleName) (values : List Scalar) :
    ((writeSlot i name values).exec s).2.Sound sole := by
  unfold writeSlot
  rw [exec_poolPosition_bind]
  cases s.world.pool? i with
  | none => exact sound
  | some pl =>
    simp only
    rw [exec_handle_bind]
    cases s.named? name with
    | none => exact sound
    | some h =>
      have hwritten := sound_onPool (i := i) (f := (·.overwrite h values)) sound
        fun pl a pl' wf hwrite => by
          rw [Pool.overwrite_eq wf, Attempt.decided_eq_ok_iff] at hwrite
          obtain ⟨hnone, hresult⟩ := hwrite
          cases hresult
          have hread := (Option.or_eq_none_iff.mp hnone).1
          have hspans := wf.spans (Pool.liveAt_of_flawed? wf hread).lt
          exact Pool.alike_withBlock wf hspans (by rw [length_overlay, Pool.length_block hspans])
      simp only
      rw [exec_actOnPool_bind]
      cases hact : (World.onPool i (·.overwrite h values)).exec s.world with
      | mk result w =>
        rw [hact] at hwritten
        cases result <;> exact hwritten

/-! ## Steps on particles -/

/-- A particle is changed by an operation that trades its slot. -/
theorem sound_revise {f : Particle dim spacedim → Action ParticleError (Particle dim spacedim)}
    (hf : ∀ p, p.Placed s.world →
      (f p).Settles s.world fun p' w' => p'.MadeFrom p.slots s.world w') :
    ((revise key f).exec s).2.Sound sole := by
  unfold revise
  rw [exec_particle_bind]
  cases hp : s.particles.find? key with
  | none => exact sound
  | some p =>
    obtain ⟨cause, p', w', he, hpost⟩ := hf p (sound.placed hp)
    simp only
    rw [exec_actOnParticle_bind, he]
    cases cause with
    | some e => exact sound
    | none => exact sound.join ((sound.split hp).made (hpost rfl))

theorem sound_overwrite (values : List Scalar) :
    ((do
      let p ← particle key
      return .scalars (← actOnParticle (p.overwrite values)) :
        StepM dim spacedim (Answer dim spacedim)).exec s).2.Sound sole := by
  rw [exec_particle_bind]
  cases hp : s.particles.find? key with
  | none => exact sound
  | some p =>
    obtain ⟨cause, after, w', he, hpost⟩ := overwrite_settles values sound.wellFormed
      (sound.placed hp)
    simp only
    rw [exec_actOnParticle_bind, he]
    cases cause with
    | some e => exact sound
    | none =>
      have htrade := hpost rfl
      have hmade : p.MadeFrom p.slots s.world w' := ⟨htrade, (sound.placed hp).evolves htrade.evolves⟩
      exact ⟨sound.1, ((sound.split hp).made hmade).perm (Registry.values_of_find? sound.1 hp).symm⟩

theorem sound_copyFrom (source : Nat) :
    ((do
      let other ← particle source
      revise key (·.copyFrom other) : StepM dim spacedim (Answer dim spacedim)).exec s).2.Sound
        sole := by
  rw [exec_particle_bind]
  cases hother : s.particles.find? source with
  | none => exact sound
  | some other =>
    exact sound_revise sound fun p placed =>
      copyFrom_settles sound.wellFormed placed (sound.placed hother)

theorem sound_moveTo (target : Nat) :
    ((do
      let i ← poolPosition target
      revise key (·.moveTo i) : StepM dim spacedim (Answer dim spacedim)).exec s).2.Sound sole := by
  rw [exec_poolPosition_bind]
  cases ht : s.world.pool? target with
  | none => exact sound
  | some tg =>
    exact sound_revise sound fun p placed => moveTo_settles sound.wellFormed placed ht

theorem sound_copy : ((copy key dest).exec s).2.Sound sole := by
  unfold copy
  rw [exec_particle_bind]
  cases hp : s.particles.find? key with
  | none => exact sound
  | some p =>
    obtain ⟨cause, p', w', he, hpost⟩ := copy_settles sound.wellFormed (sound.placed hp)
    simp only
    rw [exec_actOnParticle_bind, he]
    cases cause with
    | some e => exact sound
    | none =>
      exact sound_storeNew (s := { s with world := w' }) sound.1 (sound.2.born (hpost rfl))

theorem sound_take : ((take key dest).exec s).2.Sound sole := by
  unfold take
  rw [exec_particle_bind]
  cases hp : s.particles.find? key with
  | none => exact sound
  | some p =>
    have hasc := Registry.ascending_insert sound.1 key p.take.2
    simp only
    rw [exec_putBack_bind]
    exact sound_storeNew (s := { s with particles := s.particles.insert key p.take.2 }) hasc
      (sound.taken hp)

theorem sound_drop : ((drop key).exec s).2.Sound sole := by
  unfold drop
  rw [exec_bind, exec_get]
  simp only
  cases hp : s.particles.find? key with
  | none => exact sound
  | some p =>
    have t := (sound.split hp).dropped
    have hdrop := exec_drop (ε := ParticleError) sound.wellFormed (sound.placed hp)
    simp only
    rw [exec_bind, exec_set]
    simp only
    rw [exec_actOnParticle_bind]
    simp only [hdrop]
    exact ⟨Registry.ascending_erase sound.1 key, t⟩

theorem sound_update : ((update key b).exec s).2.Sound sole := by
  unfold update
  rw [exec_particle_bind]
  cases hp : s.particles.find? key with
  | none => exact sound
  | some p =>
    obtain ⟨cause, result, w', he, hpost⟩ :=
      update_settles (s.bytes b) sound.wellFormed (sound.placed hp)
    simp only
    rw [exec_buffer_bind, exec_act_bind, he]
    cases cause with
    | some e => exact sound
    | none => exact sound.join ((sound.split hp).made (hpost rfl))

theorem sound_load (chunk : Option Nat) : ((load key b chunk).exec s).2.Sound sole := by
  unfold load
  rw [exec_particle_bind]
  cases hp : s.particles.find? key with
  | none => exact sound
  | some p =>
    obtain ⟨result, left, w', he, -, hpost⟩ :=
      load_settles sound.wellFormed (sound.placed hp) chunk (s.bytes b)
    simp only
    rw [exec_buffer_bind, exec_bind, exec_modifyGet]
    simp only [he]
    rw [exec_keepBuffer_bind]
    cases result with
    | error failure =>
      obtain ⟨rfl, -⟩ := hpost
      exact sound
    | ok p' => exact sound.join ((sound.split hp).made hpost)

theorem sound_setValuesFromView (v : Nat) : ((setValuesFromView key v).exec s).2.Sound sole := by
  unfold setValuesFromView
  rw [exec_particle_bind]
  cases hp : s.particles.find? key with
  | none => exact sound
  | some p =>
    obtain ⟨result, hviewed⟩ := exec_viewed (s := s) v
    simp only
    rw [exec_bind, hviewed]
    cases result with
    | error answer => exact sound
    | ok values =>
      obtain ⟨cause, p', w', he, hpost⟩ :=
        setValues_settles values sound.wellFormed (sound.placed hp)
      simp only
      rw [exec_actOnParticle_bind, he]
      cases cause with
      | some e => exact sound
      | none => exact sound.join ((sound.split hp).made (hpost rfl))

theorem sound_decode (from? : Option Nat) : ((decode key b from?).exec s).2.Sound sole := by
  unfold decode
  rw [exec_positions_bind]
  split
  · rename_i hpool
    obtain ⟨cause, result, w', he, hpost⟩ :=
      ofBytes_settles dim spacedim (s.bytes b) sound.wellFormed
        fun i hi => Option.isSome_iff_exists.mp (hpool i hi)
    rw [exec_buffer_bind, exec_act_bind, he]
    cases cause with
    | some e => exact sound
    | none =>
      obtain ⟨p, rest⟩ := result
      have t := sound.2.born (hpost rfl)
      simp only [decided_none]
      rw [exec_keepBuffer_bind, exec_bind,
        exec_store_of_tenancy _ (by exact t) (List.subset_cons_self _ _)]
      exact sound_stored sound.1 t
  · exact sound

theorem sound_decodeBatch (from? : Option Nat) (first : Nat) :
    ((decodeBatch b from? first).exec s).2.Sound sole := by
  unfold decodeBatch
  rw [exec_positions_bind]
  split
  · rename_i hpool
    obtain ⟨reading, w', hrun, hreading⟩ :=
      Batch.decodeOnto_trade ([] : List (Particle dim spacedim)) sound.wellFormed
        (fun i hi => Option.isSome_iff_exists.mp (hpool i hi)) (by simp) (s.bytes b)
    rw [exec_buffer_bind, exec_bind, exec_modifyGet]
    unfold Batch.decode
    simp only [hrun]
    rw [exec_keepBuffer_bind]
    cases houtcome : reading.outcome with
    | error failure =>
      rw [houtcome] at hreading
      exact ⟨sound.1, sound.2.trade [] [] hreading (by simp)⟩
    | ok made =>
      rw [houtcome] at hreading
      have t := sound.2.trade [] _ hreading.1 hreading.2
      obtain ⟨s', hstore, sound'⟩ := sound_storeAll first
        (s := { s with world := w', buffers := s.buffers.insert b reading.rest }) sound.1 t
      simp only
      rw [exec_bind, hstore]
      simp only
      rw [exec_bind, exec_particles]
      cases ((List.range made.length).map (first + ·)).mapM s'.particles.find? <;> exact sound'
  · exact sound

/-- An operation that takes or releases a slot by its bare handle. -/
theorem sound_bare {α : Type} (hsole : ¬ sole) {f : Pool → Attempt PoolError (α × Pool)}
    (hf : ∀ pl, s.world.pool? i = some pl → pl.WellFormed →
      ∃ cause a pl', f pl = .decided cause (a, pl') ∧
        (cause = none → ∃ h entry, pl.Update h entry pl')) :
    Session.Sound sole { s with world := ((World.onPool i f).exec s.world).2 } := by
  cases hp : s.world.pool? i with
  | none =>
    rw [World.exec_onPool, hp]
    exact sound
  | some pl =>
    obtain ⟨cause, a, pl', he, hupdate⟩ := hf pl hp (sound.wellFormed.pool i pl hp)
    rw [World.exec_onPool_decided hp he]
    cases cause with
    | some e => exact sound
    | none =>
      obtain ⟨h, entry, u⟩ := hupdate rfl
      exact ⟨sound.1, sound.2.evolved hsole (World.update_setPool hp u).evolves⟩

theorem sound_issue {f : Pool → Attempt PoolError (Handle × Pool)}
    (hf : Session.Sound sole { s with world := ((World.onPool i f).exec s.world).2 }) :
    ((issue i dest f).exec s).2.Sound sole := by
  unfold issue
  rw [exec_poolPosition_bind]
  cases s.world.pool? i with
  | none => exact sound
  | some pl =>
    simp only
    rw [exec_actOnPool_bind]
    cases hact : (World.onPool i f).exec s.world with
    | mk result w =>
      rw [hact] at hf
      cases result <;> exact hf

theorem sound_allocate (hsole : ¬ sole) : ((issue i dest Pool.allocate).exec s).2.Sound sole := by
  refine sound_issue sound (sound_bare sound hsole fun pl hp wf => ?_)
  refine ⟨_, _, _, Pool.allocate_eq wf, fun hnone => ?_⟩
  rw [Option.or_eq_none_iff, Pool.viewed?_eq_none_iff, Pool.full?_eq_none_iff] at hnone
  exact ⟨_, _, Pool.update_taken wf hnone.1 hnone.2⟩

theorem sound_duplicate (hsole : ¬ sole) (h : Handle) :
    ((issue i dest (·.duplicate h)).exec s).2.Sound sole := by
  refine sound_issue sound (sound_bare sound hsole fun pl hp wf => ?_)
  refine ⟨_, _, _, Pool.duplicate_eq wf, fun hnone => ?_⟩
  rw [Option.or_eq_none_iff, Option.or_eq_none_iff, Pool.viewed?_eq_none_iff,
    Pool.full?_eq_none_iff] at hnone
  obtain ⟨hview, hread, hroom⟩ := hnone
  have hlen := Pool.length_block_of_flawed? wf hread
  exact ⟨_, _, Pool.update_filled wf hview hroom hlen⟩

theorem sound_release (hsole : ¬ sole) : ((release i key).exec s).2.Sound sole := by
  unfold release
  rw [exec_poolPosition_bind]
  cases s.world.pool? i with
  | none => exact sound
  | some pl =>
    simp only
    rw [exec_keptHandle_bind]
    cases s.handles.find? key with
    | none => exact sound
    | some h =>
      have hreleased := sound_bare (i := i) (f := (·.release h)) sound hsole fun pl hp wf =>
        ⟨_, _, _, Pool.release_eq wf, fun hnone =>
          ⟨_, _, Pool.update_released wf (Pool.flawed?_eq_none_iff_contents.mp hnone)⟩⟩
      simp only
      rw [exec_act_bind]
      unfold World.release
      cases hact : (World.onPool i (·.release h)).exec s.world with
      | mk result w =>
        rw [hact] at hreleased
        cases result <;> exact hreleased

end Steps

/-- A step that only looks leaves the session as it is. -/
theorem exec_look {step : Step dim spacedim} (hlook : step.isLook = true) :
    ((ofStep step).exec s).2 = s := by
  cases step with
  | hasCapacity i n =>
    simp only [ofStep, exec_pool_bind]
    cases s.world.pool? i <;> rfl
  | readSlot i name =>
    simp only [ofStep, readSlot, exec_pool_bind, exec_handle_bind]
    cases s.world.pool? i with
    | none => rfl
    | some pl =>
      cases s.named? name with
      | none => rfl
      | some h =>
        simp only
        cases pl.values h <;> rfl
  | isLive i name =>
    simp only [ofStep, exec_pool_bind, exec_handle_bind]
    cases s.world.pool? i with
    | none => rfl
    | some pl => cases s.named? name <;> rfl
  | reportPool i =>
    simp only [ofStep, exec_pool_bind]
    cases s.world.pool? i <;> rfl
  | describeHandle name =>
    simp only [ofStep, exec_handle_bind]
    cases s.named? name <;> rfl
  | sameHandle name other =>
    simp only [ofStep, exec_handle_bind]
    cases s.named? name with
    | none => rfl
    | some h =>
      simp only [exec_keptHandle_bind]
      cases s.handles.find? other <;> rfl
  | readView v =>
    obtain ⟨result, hviewed⟩ := exec_viewed (s := s) v
    simp only [ofStep]
    rw [exec_bind, hviewed]
    cases result <;> rfl
  | readBuffer b => rfl
  | look p => rfl
  | report p =>
    simp only [ofStep, exec_particle_bind]
    cases s.particles.find? p <;> rfl
  | keys p =>
    simp only [ofStep, exec_particle_bind]
    cases s.particles.find? p <;> rfl
  | _ => cases hlook

/-- **Every step keeps a session sound.** -/
theorem sound_ofStep (sound : s.Sound sole) (step : Step dim spacedim)
    (hbare : sole → step.isBare = false) : ((ofStep step).exec s).2.Sound sole := by
  have hsole : step.isBare = true → ¬ sole := fun hb h => by
    rw [hbare h] at hb
    cases hb
  cases step with
  | makePool config => exact sound_makePool sound config
  | takePoolId => exact ⟨sound.1, sound.2.takeId⟩
  | reserve i n => exact sound_reserve sound n
  | allocate i dest => exact sound_allocate sound (hsole rfl)
  | duplicate i name dest =>
    simp only [ofStep, exec_handle_bind]
    cases s.named? name with
    | none => exact sound
    | some h => exact sound_duplicate sound (hsole rfl) h
  | release i key => exact sound_release sound (hsole rfl)
  | writeSlot i name values => exact sound_writeSlot sound name values
  | forge dest h => exact sound
  | shareHandle name dest =>
    simp only [ofStep, shareHandle, exec_handle_bind]
    cases s.named? name <;> exact sound
  | takeHandle key dest =>
    simp only [ofStep, takeHandle, exec_keptHandle_bind]
    cases s.handles.find? key with
    | none => exact sound
    | some h =>
      simp only [exec_keepHandle_bind, exec_keptHandle_bind]
      split <;> exact sound
  | openView dest i name writable => exact sound_openView sound name writable
  | writeView v values => exact sound_writeView sound values
  | closeView v =>
    have hshut := sound_shutView sound v
    simp only [ofStep]
    rw [exec_bind]
    cases hview : (shutView v).exec s with
    | mk result s' =>
      rw [hview] at hshut
      cases result <;> exact hshut
  | setBuffer b data => exact sound
  | truncateBuffer b n => exact sound
  | patchBuffer b start data => exact sound
  | appendBuffer b dest => exact sound
  | make p =>
    exact sound_storeNew sound.1 (sound.2.born (madeFrom_invalid rfl fun i hi => by cases hi))
  | makeAt p location reference id =>
    exact sound_storeNew sound.1 (sound.2.born (madeFrom_invalid rfl fun i hi => by cases hi))
  | decode p b from? => exact sound_decode sound from?
  | copy p dest => exact sound_copy sound
  | copyFrom p source => exact sound_copyFrom sound source
  | take p dest => exact sound_take sound
  | drop p => exact sound_drop sound
  | encode p b =>
    simp only [ofStep, encode, exec_particle_bind, exec_buffer_bind, exec_world_bind]
    cases s.particles.find? p with
    | none => exact sound
    | some q =>
      simp only
      cases q.encode s.world <;> exact sound
  | update p b => exact sound_update sound
  | save p b chunk room =>
    simp only [ofStep, save, exec_particle_bind, exec_buffer_bind, exec_world_bind]
    cases s.particles.find? p <;> exact sound
  | load p b chunk => exact sound_load sound chunk
  | setLocation p location =>
    exact sound_revise sound fun q placed => settles_ok rfl (madeFrom_self placed rfl rfl)
  | setReference p reference =>
    exact sound_revise sound fun q placed => settles_ok rfl (madeFrom_self placed rfl rfl)
  | setId p id =>
    exact sound_revise sound fun q placed => settles_ok rfl (madeFrom_self placed rfl rfl)
  | releaseSlot p =>
    exact sound_revise sound fun q placed => releaseSlot_settles sound.wellFormed placed
  | moveTo p i => exact sound_moveTo sound i
  | setValues p values =>
    exact sound_revise sound fun q placed => setValues_settles _ sound.wellFormed placed
  | setValuesFromView p v => exact sound_setValuesFromView sound v
  | overwrite p values => exact sound_overwrite sound values
  | encodeBatch keys b =>
    simp only [ofStep, encodeBatch]
    rw [exec_bind, exec_particles]
    cases keys.mapM s.particles.find? with
    | none => exact sound
    | some ps =>
      simp only [exec_buffer_bind, exec_world_bind]
      cases Batch.encode s.world ps <;> exact sound
  | decodeBatch b from? first => exact sound_decodeBatch sound from? first
  | _ =>
    rw [exec_look rfl]
    exact sound

end StepM

namespace Session

theorem sound_perform (sound : s.Sound sole) (step : Step dim spacedim)
    (hbare : sole → step.isBare = false) : (s.perform step).2.Sound sole := by
  have hstep := sound_ofStep sound step hbare
  rw [perform_eq]
  cases hexec : (ofStep step).exec s with
  | mk result s' =>
    rw [hexec] at hstep
    cases result <;> exact hstep

/-- **Every run keeps a session sound.** -/
theorem sound_run (sound : s.Sound sole) (steps : List (Step dim spacedim))
    (hbare : sole → ∀ step ∈ steps, step.isBare = false) : (s.run steps).2.Sound sole := by
  induction steps generalizing s with
  | nil => exact sound
  | cons step rest ih =>
    have hfirst := sound_perform sound step fun h => hbare h step List.mem_cons_self
    exact ih hfirst fun h later hlater => hbare h later (List.mem_cons_of_mem _ hlater)

/-! Whoever holds the slots, steps keep a session sound. -/

theorem Sound.perform (sound : s.Sound False) (step : Step dim spacedim) :
    (s.perform step).2.Sound False :=
  sound_perform sound step fun hfalse => hfalse.elim

theorem Sound.run (sound : s.Sound False) (steps : List (Step dim spacedim)) :
    (s.run steps).2.Sound False :=
  sound_run sound steps fun hfalse => hfalse.elim

/-- Every session that is reached is sound. -/
theorem sound_reached (steps : List (Step dim spacedim)) :
    (run ({} : Session dim spacedim) steps).2.Sound False :=
  sound_empty.run steps

end Session

end ParticleStore
