/-
ParticleStore.Proofs.Session.Calls — steps of a session as calls on pools.

A step of a session does to the pools what calls can do. The steps that open or close a
view or write through one make calls of the same names; all other steps make only calls
that have nothing to do with views, and keep the views that are open (`guided_ofStep`),
whatever they are refused for. So whatever every call keeps, every session keeps, and the
world of every session that is reached is reached by calls (`leads_reached`).
-/
import ParticleStore.Proofs.Particle.Calls
import ParticleStore.Proofs.Session.Sound

namespace ParticleStore

open ParticleStore.Action Particle World PoolCall

variable {dim spacedim : Nat} {α β : Type} {allowed : PoolCall → Bool}

namespace Step

/-- The steps that open or close a view, or write through one. -/
def isOnView : Step dim spacedim → Bool
  | .openView .. | .writeView .. | .closeView .. => true
  | _ => false

end Step

namespace Session

/-- One session leads to another by allowed calls, and keeps its views if none may be closed. -/
structure Follows (allowed : PoolCall → Bool) (s s' : Session dim spacedim) : Prop where
  leads : ∃ events, s.world.Leads allowed events s'.world
  views_eq : (∀ i v, allowed (.closeView i v) = false) → s'.views = s.views

namespace Follows

variable {s s' s'' : Session dim spacedim}

/-- What is kept beside the pools and the views makes no difference. -/
theorem of_same (hworld : s'.world = s.world) (hviews : s'.views = s.views) :
    s.Follows allowed s' :=
  ⟨⟨[], by rw [hworld]; exact .refl _⟩, fun _ => hviews⟩

theorem refl (s : Session dim spacedim) : s.Follows allowed s := .of_same rfl rfl

theorem trans (f : s.Follows allowed s') (f' : s'.Follows allowed s'') : s.Follows allowed s'' := by
  obtain ⟨events, leads⟩ := f.leads
  obtain ⟨events', leads'⟩ := f'.leads
  exact ⟨⟨events ++ events', leads.trans leads'⟩, fun hnone =>
    (f'.views_eq hnone).trans (f.views_eq hnone)⟩

/-- Calls are made, and the views kept. -/
theorem of_leads {w : World} (hleads : ∃ events, s.world.Leads allowed events w) :
    s.Follows allowed { s with world := w } := ⟨hleads, fun _ => rfl⟩

/-- Where views may be closed, calls are all that counts. -/
theorem of_closing (hclose : ∀ i v, allowed (.closeView i v) = true)
    (hleads : ∃ events, s.world.Leads allowed events s'.world) : s.Follows allowed s' :=
  ⟨hleads, fun hnone => absurd (hclose 0 default) (by rw [hnone]; exact Bool.false_ne_true)⟩

end Follows

end Session

namespace StepM

/-- All that a part of a step does to the pools, allowed calls can do, and the views are kept if
none may be closed. -/
def Guided (allowed : PoolCall → Bool) (m : StepM dim spacedim α) : Prop :=
  ∀ s : Session dim spacedim, s.Follows allowed (m.exec s).2

/-- A part of a step that leaves the pools and the views alone. -/
def Spares (m : StepM dim spacedim α) : Prop :=
  ∀ s : Session dim spacedim, (m.exec s).2.world = s.world ∧ (m.exec s).2.views = s.views

namespace Guided

theorem of_spares {m : StepM dim spacedim α} (hspares : m.Spares) : m.Guided allowed := fun s =>
  .of_same (hspares s).1 (hspares s).2

theorem of_pure (a : α) : (pure a : StepM dim spacedim α).Guided allowed :=
  of_spares fun _ => ⟨rfl, rfl⟩

theorem of_stop (answer : Answer dim spacedim) :
    (stop answer : StepM dim spacedim α).Guided allowed := of_spares fun _ => ⟨rfl, rfl⟩

theorem bind {m : StepM dim spacedim α} {f : α → StepM dim spacedim β} (hm : m.Guided allowed)
    (hf : ∀ a, (f a).Guided allowed) : (m >>= f).Guided allowed := by
  intro s
  have first := hm s
  rw [exec_bind]
  cases hexec : m.exec s with
  | mk result s' =>
    rw [hexec] at first
    cases result with
    | error answer => exact first
    | ok a => exact first.trans (hf a s')

/-- The session is looked up first. -/
theorem of_get {f : Session dim spacedim → StepM dim spacedim β}
    (hf : ∀ s : Session dim spacedim, s.Follows allowed ((f s).exec s).2) :
    (get >>= f).Guided allowed := fun s => by
  rw [exec_bind, exec_get]
  exact hf s

theorem act {ε : Type} {action : Action ε α}
    (haction : ∀ w : World, ∃ events, w.Leads allowed events (action.exec w).2) :
    (StepM.act action : StepM dim spacedim _).Guided allowed := fun s => .of_leads (haction s.world)

theorem actOnParticle {action : Action ParticleError α}
    (haction : ∀ w : World, ∃ events, w.Leads allowed events (action.exec w).2) :
    (StepM.actOnParticle action : StepM dim spacedim _).Guided allowed := by
  refine (Guided.act haction).bind fun result => ?_
  cases result with
  | ok a => exact .of_pure a
  | error failure => exact .of_stop _

theorem actOnPool {i : Nat} {f : Pool → Attempt PoolError (α × Pool)}
    (hf : ∀ w : World, ∃ events, w.Leads allowed events ((onPool i f).exec w).2) :
    (StepM.actOnPool i f : StepM dim spacedim _).Guided allowed := by
  refine (Guided.act hf).bind fun result => ?_
  cases result with
  | ok a => exact .of_pure a
  | error failure => exact .of_stop _

end Guided

/-! ## Looking up and storing -/

theorem guided_particle (key : Nat) :
    (particle key : StepM dim spacedim _).Guided allowed := by
  refine .of_get fun s => ?_
  rw [exec_found]
  cases s.particles.find? key <;> exact .refl _

theorem guided_particles (keys : List Nat) :
    (particles keys : StepM dim spacedim _).Guided allowed := .of_spares fun s => by
  rw [exec_particles]
  cases keys.mapM s.particles.find? <;> exact ⟨rfl, rfl⟩

theorem guided_keptHandle (key : Nat) :
    (keptHandle key : StepM dim spacedim _).Guided allowed := by
  refine .of_get fun s => ?_
  rw [exec_found]
  cases s.handles.find? key <;> exact .refl _

theorem guided_handle (name : HandleName) :
    (handle name : StepM dim spacedim _).Guided allowed := by
  cases name with
  | kept key => exact guided_keptHandle key
  | ofParticle key => exact (guided_particle key).bind fun p => .of_pure p.handle

theorem guided_pool (i : Nat) : (pool i : StepM dim spacedim _).Guided allowed := by
  refine .of_get fun s => ?_
  rw [exec_found]
  cases s.world.pool? i <;> exact .refl _

theorem guided_poolPosition (i : Nat) : (poolPosition i : StepM dim spacedim _).Guided allowed :=
  (guided_pool i).bind fun _ => .of_pure i

theorem guided_positions (from? : Option Nat) :
    (from?.mapM poolPosition : StepM dim spacedim _).Guided allowed := by
  cases from? with
  | none => exact .of_pure none
  | some i =>
    have hmap : ((some i).mapM poolPosition : StepM dim spacedim _) =
        poolPosition i >>= fun i => pure (some i) := (map_eq_pure_bind ..)
    rw [hmap]
    exact (guided_poolPosition i).bind fun i => .of_pure (some i)

theorem guided_view (key : Nat) : (view key : StepM dim spacedim _).Guided allowed := by
  refine .of_get fun s => ?_
  rw [exec_found]
  cases s.views.find? key <;> exact .refl _

theorem guided_buffer (key : Nat) : (buffer key : StepM dim spacedim _).Guided allowed :=
  .of_spares fun _ => ⟨rfl, rfl⟩

theorem guided_world : (world : StepM dim spacedim _).Guided allowed :=
  .of_spares fun _ => ⟨rfl, rfl⟩

theorem guided_keepHandle (key : Nat) (h : Handle) :
    (keepHandle key h : StepM dim spacedim _).Guided allowed := .of_spares fun _ => ⟨rfl, rfl⟩

theorem guided_keepBuffer (key : Nat) (data : Bytes) :
    (keepBuffer key data : StepM dim spacedim _).Guided allowed := .of_spares fun _ => ⟨rfl, rfl⟩

theorem guided_putBack (key : Nat) (p : Particle dim spacedim) :
    (putBack key p).Guided allowed := .of_spares fun _ => ⟨rfl, rfl⟩

theorem guided_viewed (key : Nat) : (viewed key : StepM dim spacedim _).Guided allowed :=
  .of_spares fun s => by
    obtain ⟨result, hviewed⟩ := exec_viewed (s := s) key
    rw [hviewed]
    exact ⟨rfl, rfl⟩

/-- The particle that was there is dropped. -/
theorem guided_store (key : Nat) (p : Particle dim spacedim) : (store key p).Guided isQuiet := by
  refine .of_get fun s => ?_
  cases s.particles.find? key with
  | none => exact ((guided_putBack key p).bind fun _ => .of_pure ()) s
  | some old =>
    exact ((guided_putBack key p).bind fun _ => .actOnParticle (guided_drop old)) s

theorem guided_storeAll (key : Nat) (ps : List (Particle dim spacedim)) :
    (storeAll key ps).Guided isQuiet := by
  induction ps generalizing key with
  | nil => exact .of_pure ()
  | cons p rest ih => exact (guided_store key p).bind fun _ => ih (key + 1)

theorem guided_shutView (hclose : ∀ i v, allowed (.closeView i v) = true) (key : Nat) :
    (shutView key : StepM dim spacedim _).Guided allowed := by
  intro s
  rw [exec_shutView]
  cases s.views.find? key with
  | none => exact .refl s
  | some entry =>
    obtain ⟨i, v⟩ := entry
    have leads : s.world.Leads allowed [] (s.world.call (.closeView i v)).2 :=
      .of_call (.closeView i v) (hclose i v)
    simp only [call, exec_onPool] at leads ⊢
    cases hp : s.world.pool? i with
    | none => exact .of_closing hclose ⟨[], .refl _⟩
    | some pl =>
      rw [hp] at leads
      exact .of_closing hclose ⟨[], leads⟩

/-! ## Steps -/

theorem guided_makePool {config : PoolConfig} (hallowed : allowed (.makePool config) = true) :
    (makePool config : StepM dim spacedim _).Guided allowed := by
  refine .of_get fun s => ?_
  have made : s.Follows allowed { s with world := (s.world.addPool config).2 } :=
    .of_leads ⟨[], .of_call (.makePool config) hallowed⟩
  exact made.trans ((guided_pool (s.world.addPool config).1).bind
    (fun p => Guided.of_pure (Answer.poolMade p.id config)) _)

theorem guided_reserve (hallowed : ∀ i n, allowed (.reserve i n) = true) (i n : Nat) :
    (reserve i n : StepM dim spacedim _).Guided allowed :=
  (guided_poolPosition i).bind fun i =>
    Guided.bind (fun _ => .of_leads ⟨[], .of_call (.reserve i n) (hallowed i n)⟩) fun _ => .of_pure _

theorem guided_issue {f : Pool → Attempt PoolError (Handle × Pool)}
    (hf : ∀ i (w : World), ∃ events, w.Leads allowed events ((onPool i f).exec w).2) (i dest : Nat) :
    (issue i dest f : StepM dim spacedim _).Guided allowed :=
  (guided_poolPosition i).bind fun i => (Guided.actOnPool (hf i)).bind fun h =>
    (guided_keepHandle dest h).bind fun _ => .of_pure _

theorem guided_release (i key : Nat) : (release i key : StepM dim spacedim _).Guided isQuiet := by
  refine (guided_poolPosition i).bind fun i => (guided_keptHandle key).bind fun h =>
    (Guided.act (Action.Guided.release i h)).bind fun result => ?_
  cases result with
  | ok left => exact (guided_keepHandle key left).bind fun _ => .of_pure _
  | error failure => exact .of_pure _

theorem guided_writeSlot (hallowed : ∀ i h values, allowed (.overwrite i h values) = true) (i : Nat)
    (name : HandleName) (values : List Scalar) :
    (writeSlot i name values : StepM dim spacedim _).Guided allowed :=
  (guided_poolPosition i).bind fun i => (guided_handle name).bind fun h =>
    (Guided.actOnPool fun _ => ⟨[], .of_call (.overwrite i h values) (hallowed i h values)⟩).bind
      fun _ => .of_pure _

theorem guided_takeHandle (key dest : Nat) :
    (takeHandle key dest : StepM dim spacedim _).Guided allowed :=
  (guided_keptHandle key).bind fun h => (guided_keepHandle key h.take.2).bind fun _ =>
    (guided_keepHandle dest h.take.1).bind fun _ => (guided_keptHandle key).bind fun _ => .of_pure _

theorem guided_openView (hopen : ∀ i h writable, allowed (.openView i h writable) = true)
    (hclose : ∀ i v, allowed (.closeView i v) = true) (dest i : Nat) (name : HandleName)
    (writable : Bool) : (openView dest i name writable : StepM dim spacedim _).Guided allowed := by
  refine (guided_poolPosition i).bind fun i => (guided_handle name).bind fun h =>
    (Guided.actOnPool fun w => ⟨[], .of_call (.openView i h writable) (hopen i h writable)⟩).bind
      fun v => (guided_shutView hclose dest).bind fun _ => ?_
  exact Guided.bind (fun _ => .of_closing hclose ⟨[], .refl _⟩) fun _ => .of_pure _

theorem guided_writeView (hallowed : ∀ i j values, allowed (.overwriteAt i j values) = true) (key : Nat)
    (values : List Scalar) : (writeView key values : StepM dim spacedim _).Guided allowed := by
  refine (guided_view key).bind fun entry => ?_
  obtain ⟨i, v⟩ := entry
  simp only
  split
  · exact (Guided.actOnPool fun w =>
      ⟨[], .of_call (.overwriteAt i v.position values) (hallowed i v.position values)⟩).bind
        fun _ => .of_pure _
  · exact .of_stop _

theorem guided_revise (key : Nat)
    {f : Particle dim spacedim → Action ParticleError (Particle dim spacedim)}
    (hf : ∀ p, (f p).Guided) : (revise key f).Guided isQuiet :=
  (guided_particle key).bind fun p => (Guided.actOnParticle (hf p)).bind fun p' =>
    (guided_putBack key p').bind fun _ => .of_pure _

theorem guided_storeNew (key : Nat) (p : Particle dim spacedim) :
    (storeNew key p).Guided isQuiet := (guided_store key p).bind fun _ => .of_pure _

theorem guided_decode (key b : Nat) (from? : Option Nat) :
    (decode key b from? : StepM dim spacedim _).Guided isQuiet := by
  refine (guided_positions from?).bind fun from? => (guided_buffer b).bind fun input =>
    (Guided.act (guided_ofBytes dim spacedim from? input)).bind fun result => ?_
  cases result with
  | ok result =>
    exact (guided_keepBuffer b result.2).bind fun _ => (guided_store key result.1).bind fun _ =>
      .of_pure _
  | error failure => exact .of_pure _

theorem guided_take (key dest : Nat) : (take key dest : StepM dim spacedim _).Guided isQuiet :=
  (guided_particle key).bind fun p => (guided_putBack key p.take.2).bind fun _ =>
    (guided_store dest p.take.1).bind fun _ => .of_pure _

theorem guided_drop_step (key : Nat) : (drop key : StepM dim spacedim _).Guided isQuiet := by
  refine .of_get fun s => ?_
  cases s.particles.find? key with
  | none => exact .refl s
  | some p =>
    have erased : s.Follows isQuiet { s with particles := s.particles.erase key } :=
      .of_same rfl rfl
    exact erased.trans (((Guided.actOnParticle (guided_drop p)).bind fun _ => .of_pure _) _)

theorem guided_encode (key b : Nat) : (encode key b : StepM dim spacedim _).Guided allowed := by
  refine (guided_particle key).bind fun p => (guided_buffer b).bind fun out =>
    guided_world.bind fun w => ?_
  split
  · exact (guided_keepBuffer b _).bind fun _ => .of_pure _
  · exact .of_pure _

theorem guided_update_step (key b : Nat) :
    (update key b : StepM dim spacedim _).Guided isQuiet := by
  refine (guided_particle key).bind fun p => (guided_buffer b).bind fun input =>
    (Guided.act (guided_update p input)).bind fun result => ?_
  cases result with
  | ok result =>
    exact (guided_keepBuffer b result.2).bind fun _ => (guided_putBack key result.1).bind fun _ =>
      .of_pure _
  | error failure => exact .of_pure _

theorem guided_save (key b : Nat) (chunk room : Option Nat) :
    (save key b chunk room : StepM dim spacedim _).Guided allowed :=
  (guided_particle key).bind fun _ => (guided_buffer b).bind fun _ =>
    guided_world.bind fun _ => (guided_keepBuffer b _).bind fun _ => .of_pure _

theorem guided_load (key b : Nat) (chunk : Option Nat) :
    (load key b chunk : StepM dim spacedim _).Guided isQuiet := by
  refine (guided_particle key).bind fun p => (guided_buffer b).bind fun input =>
    Guided.bind (fun s => .of_leads (leads_load p chunk input)) fun result =>
      (guided_keepBuffer b result.2).bind fun _ => ?_
  cases result.1 with
  | ok p' => exact (guided_putBack key p').bind fun _ => .of_pure _
  | error failure => exact .of_pure _

theorem guided_encodeBatch (keys : List Nat) (b : Nat) :
    (encodeBatch keys b : StepM dim spacedim _).Guided allowed := by
  refine (guided_particles keys).bind fun ps => guided_world.bind fun w =>
    (guided_buffer b).bind fun out => ?_
  split
  · exact (guided_keepBuffer b _).bind fun _ => .of_pure _
  · exact .of_pure _

theorem guided_decodeBatch (b : Nat) (from? : Option Nat) (first : Nat) :
    (decodeBatch b from? first : StepM dim spacedim _).Guided isQuiet := by
  refine (guided_positions from?).bind fun from? => (guided_buffer b).bind fun input =>
    Guided.bind (fun s => .of_leads (Batch.leads_decodeOnto from? [] input)) fun reading =>
      (guided_keepBuffer b reading.rest).bind fun _ => ?_
  split
  · exact .of_pure _
  · rename_i made _
    exact (guided_storeAll first made).bind fun _ => (guided_particles _).bind fun _ =>
      guided_world.bind fun _ => .of_pure _

/-- **Every step but the ones on views makes calls that have nothing to do with views**, and keeps
the views. -/
theorem guided_ofStep {step : Step dim spacedim} (hstep : step.isOnView = false) :
    (ofStep step).Guided isQuiet := by
  cases step with
  | openView => cases hstep
  | writeView => cases hstep
  | closeView => cases hstep
  | makePool config => exact guided_makePool rfl
  | takePoolId => exact .of_get fun s => .of_leads ⟨[], .of_call .takeId rfl⟩
  | reserve i n => exact guided_reserve (fun _ _ => rfl) i n
  | allocate i dest => exact guided_issue Action.Guided.allocate i dest
  | duplicate i name dest =>
    exact (guided_handle name).bind fun h =>
      guided_issue (fun i => Action.Guided.duplicate i h) i dest
  | release i key => exact guided_release i key
  | writeSlot i name values => exact guided_writeSlot (fun _ _ _ => rfl) i name values
  | forge dest h => exact (guided_keepHandle dest h).bind fun _ => .of_pure _
  | shareHandle name dest =>
    exact (guided_handle name).bind fun h => (guided_keepHandle dest h).bind fun _ => .of_pure _
  | takeHandle key dest => exact guided_takeHandle key dest
  | setBuffer b data => exact .of_spares fun _ => ⟨rfl, rfl⟩
  | truncateBuffer b n => exact .of_spares fun _ => ⟨rfl, rfl⟩
  | patchBuffer b start data => exact .of_spares fun _ => ⟨rfl, rfl⟩
  | appendBuffer b dest => exact .of_spares fun _ => ⟨rfl, rfl⟩
  | make key => exact guided_storeNew key _
  | makeAt key location reference id => exact guided_storeNew key _
  | decode key b from? => exact guided_decode key b from?
  | copy key dest =>
    exact (guided_particle key).bind fun p => (Guided.actOnParticle (guided_copy p)).bind fun p' =>
      (guided_store dest p').bind fun _ => .of_pure _
  | copyFrom key source =>
    exact (guided_particle source).bind fun other =>
      guided_revise key fun p => guided_copyFrom p other
  | take key dest => exact guided_take key dest
  | drop key => exact guided_drop_step key
  | encode key b => exact guided_encode key b
  | update key b => exact guided_update_step key b
  | save key b chunk room => exact guided_save key b chunk room
  | load key b chunk => exact guided_load key b chunk
  | setLocation key location => exact guided_revise key fun _ => .pure _
  | setReference key reference => exact guided_revise key fun _ => .pure _
  | setId key id => exact guided_revise key fun _ => .pure _
  | releaseSlot key => exact guided_revise key fun p => guided_releaseSlot p
  | moveTo key i =>
    exact (guided_poolPosition i).bind fun i => guided_revise key fun p => guided_moveTo p i
  | setValues key values => exact guided_revise key fun p => guided_setValues p values
  | setValuesFromView key v =>
    exact (guided_particle key).bind fun p => (guided_viewed v).bind fun values =>
      (Guided.actOnParticle (guided_setValues p values)).bind fun p' =>
        (guided_putBack key p').bind fun _ => .of_pure _
  | overwrite key values =>
    exact (guided_particle key).bind fun p =>
      (Guided.actOnParticle (guided_overwrite p values)).bind fun _ => .of_pure _
  | encodeBatch keys b => exact guided_encodeBatch keys b
  | decodeBatch b from? first => exact guided_decodeBatch b from? first
  | _ => exact .of_spares fun s => by rw [exec_look rfl]; exact ⟨rfl, rfl⟩

/-- Every step makes calls. -/
theorem guided_any (step : Step dim spacedim) : (ofStep step).Guided isAny := by
  cases hstep : step.isOnView with
  | false =>
    intro s
    obtain ⟨events, leads⟩ := (guided_ofStep hstep s).leads
    exact .of_closing (fun _ _ => rfl) ⟨events, leads.any⟩
  | true =>
    cases step with
    | openView dest i name writable =>
      exact guided_openView (fun _ _ _ => rfl) (fun _ _ => rfl) dest i name writable
    | writeView key values => exact guided_writeView (fun _ _ _ => rfl) key values
    | closeView key => exact (guided_shutView (fun _ _ => rfl) key).bind fun _ => .of_pure _
    | _ => cases hstep

end StepM

namespace Session

open StepM

variable {s : Session dim spacedim}

theorem perform_snd (step : Step dim spacedim) :
    (s.perform step).2 = ((ofStep step).exec s).2 := by
  rw [perform_eq]
  cases (ofStep step).exec s with
  | mk result s' => cases result <;> rfl

/-- What a step but the ones on views does to the pools and the views. -/
theorem follows_perform {step : Step dim spacedim} (hstep : step.isOnView = false) :
    s.Follows isQuiet (s.perform step).2 := by
  rw [perform_snd]
  exact guided_ofStep hstep s

/-- **Every run of steps is a run of calls.** -/
theorem leads_run (steps : List (Step dim spacedim)) :
    ∃ events, s.world.Leads isAny events (s.run steps).2.world := by
  induction steps generalizing s with
  | nil => exact ⟨[], .refl _⟩
  | cons step rest ih =>
    obtain ⟨events, leads⟩ := (guided_any step s).leads
    rw [← perform_snd] at leads
    obtain ⟨later, leads'⟩ := ih (s := (s.perform step).2)
    exact ⟨events ++ later, leads.trans leads'⟩

/-- The world of every session that is reached is reached by calls. -/
theorem leads_reached (steps : List (Step dim spacedim)) :
    ∃ events, ({} : World).Leads isAny events (run ({} : Session dim spacedim) steps).2.world :=
  leads_run (s := ({} : Session dim spacedim)) steps

end Session

end ParticleStore
