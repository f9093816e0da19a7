/-
ParticleStore.Proofs.Session.Tenure — slots that nobody else releases.

Slots can be taken by hand, and handles be copied and forged. A particle can lose its slot only
if somebody releases it by such a handle, and as long as nobody does, the slots that particles
hold are live, one each, whatever else is live beside them (`Secure`). Steps on particles trade
their slots, and the frame rule is all that is needed; the other steps make calls none of which
releases anything (`guided_keepsSlots`), so they can only add to the slots that are held.
-/
import ParticleStore.Proofs.Particle.RoundTrip
import ParticleStore.Proofs.Session.Sharing

namespace ParticleStore

open ParticleStore.Action Particle World PoolCall

variable {dim spacedim : Nat}

/-- The steps that release a slot by its bare handle. -/
def Step.isBareRelease : Step dim spacedim → Bool
  | .release .. => true
  | _ => false

/-- The calls that release nothing. -/
def PoolCall.keepsSlots : PoolCall → Bool
  | .release .. => false
  | _ => true

/-- The table tells which handles are good. -/
theorem Pool.SameTable.alike {p p' : Pool} (same : p.SameTable p') (wf : p.WellFormed) :
    p.Alike p' where
  wellFormed := same.wellFormed
  id_eq := same.id_eq
  live_eq := same.live_eq wf
  isSome_eq k := by
    rw [Bool.eq_iff_iff, Pool.isSome_contents same.wellFormed, Pool.isSome_contents wf, same.id_eq,
      Pool.LiveAt, same.slots_eq, Pool.LiveAt]

namespace World

variable {w w' : World} {quiet : Bool} {events : List SlotEvent} {held : List HeldSlot}

/-! ## Calls that release nothing -/

/-- Who holds slots goes on holding them, as long as none is released. -/
theorem Owns.effect (owns : w.Owns held) (wf : w.WellFormed) (wf' : w'.WellFormed)
    (effect : w.Effect quiet events w') (hkept : ∀ i h, events ≠ [.released i h]) :
    ∃ more, w'.Owns (more ++ held) := by
  cases effect with
  | idle hpools => exact ⟨[], owns.of_pools hpools⟩
  | @made _ p hpools hempty _ _ =>
    refine ⟨[], owns.addPool hpools ?_⟩
    have hle := (wf'.pool w.pools.length p (by rw [pool?_append hpools, if_pos rfl])).live_le
    rw [Pool.totalSlots, hempty, List.length_nil] at hle
    exact Nat.le_zero.mp hle
  | changed hp hpools same =>
    exact ⟨[], (owns.setPool hp (same.alike (wf.pool _ _ hp))).of_pools hpools⟩
  | @issued _ i p p' values hp hpools _ u _ =>
    have hfresh : w.contents i p.nextHandle = none := by
      rw [contents_of_pool hp, Pool.contents_nextHandle (wf.pool i p hp)]
    exact ⟨[(i, p.nextHandle)], (owns.take hfresh (update_setPool hp u)).of_pools hpools⟩
  | released => exact absurd rfl (hkept _ _)

/-- A call that releases nothing tells of no release. -/
theorem call_fst_ne_released {c : PoolCall} (hc : c.keepsSlots = true) (i : Nat) (h : Handle) :
    (w.call c).1 ≠ [.released i h] := by
  -- what an allocation tells of is the slot that it has issued
  have issued {ε : Type} (j : Nat) (result : Attempt ε Handle × World) :
      (told (fun k => [.issued j k]) result).1 ≠ [.released i h] := by
    obtain ⟨outcome, w'⟩ := result
    cases outcome with
    | ok k => exact fun heq => by cases heq
    | error failure => exact fun heq => by cases heq
  cases c with
  | allocate j => exact issued j _
  | duplicate j k => exact issued j _
  | release => cases hc
  | _ => exact fun heq => by cases heq

theorem Leads.owns (leads : w.Leads keepsSlots events w') (wf : w.WellFormed) (owns : w.Owns held) :
    ∃ more, w'.Owns (more ++ held) := by
  have hcall (w : World) (c : PoolCall) (hc : c.keepsSlots = true) :
      (w.WellFormed ∧ ∃ more, w.Owns (more ++ held)) →
        (w.call c).2.WellFormed ∧ ∃ more, (w.call c).2.Owns (more ++ held) := by
    rintro ⟨wf, more, owns⟩
    obtain ⟨wf', effect⟩ := effect_call wf c
    obtain ⟨new, owns'⟩ := owns.effect wf wf' effect (call_fst_ne_released hc)
    exact ⟨wf', new ++ more, by rwa [List.append_assoc]⟩
  exact (leads.keeps hcall ⟨wf, [], owns⟩).2

end World

/-- What can be seen of a particle stays while pools evolve and its own slot, which is live, is left
alone. -/
theorem Particle.snapshot_of_evolves {w w' : World} {p : Particle dim spacedim} (wf : w.WellFormed)
    (e : w.Evolves w') (hlive : ∀ slot ∈ p.slots, (w.contents slot.1 slot.2).isSome)
    (hkept : ∀ slot ∈ p.slots, w'.contents slot.1 slot.2 = w.contents slot.1 slot.2) :
    p.snapshot w' = p.snapshot w := by
  have hvalues : p.values w' = p.values w := by
    cases hs : p.slot? with
    | none => simp only [values, hs]
    | some held =>
      have hmem : held ∈ p.slots := by simp [slots_of_slot hs]
      exact values_of_evolves wf e hs hs (hlive held hmem) (hkept held hmem)
  rw [snapshot, snapshot, hvalues, poolId?_of_evolves e rfl, propertyCount_of_evolves e, byteWidth,
    byteWidth, propertyCount_of_evolves e]

namespace StepM

/-- **A step that touches no particle makes calls that release nothing**, unless it is a release. -/
theorem guided_keepsSlots {step : Step dim spacedim} (htouch : ∀ key, step.touches key = false)
    (hstep : step.isBareRelease = false) : (ofStep step).Guided keepsSlots := by
  -- the other steps touch the particle under their first key
  have touched (key : Nat) (hkey : step.touches key = true) : (ofStep step).Guided keepsSlots := by
    rw [htouch key] at hkey
    cases hkey
  cases step with
  | release => cases hstep
  | makePool config => exact guided_makePool rfl
  | takePoolId => exact .of_get fun s => .of_leads ⟨[], .of_call .takeId rfl⟩
  | reserve i n => exact guided_reserve (fun _ _ => rfl) i n
  | allocate i dest =>
    exact guided_issue (fun i w => Leads.of_told (c := .allocate i) rfl rfl) i dest
  | duplicate i name dest =>
    exact (guided_handle name).bind fun h =>
      guided_issue (fun i w => Leads.of_told (c := .duplicate i h) rfl rfl) i dest
  | writeSlot i name values => exact guided_writeSlot (fun _ _ _ => rfl) i name values
  | forge dest h => exact (guided_keepHandle dest h).bind fun _ => .of_pure _
  | shareHandle name dest =>
    exact (guided_handle name).bind fun h => (guided_keepHandle dest h).bind fun _ => .of_pure _
  | takeHandle key dest => exact guided_takeHandle key dest
  | openView dest i name writable =>
    exact guided_openView (fun _ _ _ => rfl) (fun _ _ => rfl) dest i name writable
  | writeView key values => exact guided_writeView (fun _ _ _ => rfl) key values
  | closeView key => exact (guided_shutView (fun _ _ => rfl) key).bind fun _ => .of_pure _
  | setBuffer b data => exact .of_spares fun _ => ⟨rfl, rfl⟩
  | truncateBuffer b n => exact .of_spares fun _ => ⟨rfl, rfl⟩
  | patchBuffer b start data => exact .of_spares fun _ => ⟨rfl, rfl⟩
  | appendBuffer b dest => exact .of_spares fun _ => ⟨rfl, rfl⟩
  | encode key b => exact guided_encode key b
  | save key b chunk room => exact guided_save key b chunk room
  | encodeBatch keys b => exact guided_encodeBatch keys b
  | overwrite key values =>
    refine (guided_particle key).bind fun p => (Guided.actOnParticle fun w => ?_).bind fun _ =>
      .of_pure _
    unfold Particle.overwrite
    cases p.slot? with
    | none => exact ⟨[], .refl w⟩
    | some slot =>
      simp only [exec_mapCause]
      exact ⟨[], .of_call (.overwrite slot.1 slot.2 values) rfl⟩
  | make key | makeAt key | decode key | copy _ key | copyFrom key | drop key | update key | load key
  | setLocation key | setReference key | setId key | releaseSlot key | moveTo key | setValues key
  | setValuesFromView key => exact touched key (beq_self_eq_true key)
  | take key dest => exact touched key (by simp [Step.touches])
  | decodeBatch b from? first => exact touched first (by simp [Step.touches])
  | _ => exact .of_spares fun s => by rw [exec_look rfl]; exact ⟨rfl, rfl⟩

end StepM

namespace Session

open StepM

variable {s : Session dim spacedim} {key other : Nat} {p q : Particle dim spacedim}

/-- The slots that particles hold are live, one each. Other slots may be live as well. -/
def Secure (s : Session dim spacedim) : Prop :=
  ∃ bare, s.world.Owns (bare ++ slotsOf s.particles.values)

theorem secure_empty : ({} : Session dim spacedim).Secure := by
  have sound : ({} : Session dim spacedim).Sound True := sound_empty
  exact ⟨[], sound.2.owns trivial⟩

namespace Secure

/-- **No step takes a slot from its particle**, unless it releases one by its bare handle. -/
theorem perform (secure : s.Secure) (sound : s.Sound False) {step : Step dim spacedim}
    (hstep : step.isBareRelease = false) : (s.perform step).2.Secure := by
  obtain ⟨bare, owns⟩ := secure
  rcases trading_ofStep sound step with htrading | hout
  · rw [perform_snd]
    have htrade : s.Trades ((ofStep step).exec s).2 := leaves_iff.mp htrading
    obtain ⟨owns', -, -⟩ := Trade.owns htrade (owns.perm List.perm_append_comm)
    exact ⟨bare, owns'.perm List.perm_append_comm⟩
  · obtain ⟨events, leads⟩ := (guided_keepsSlots hout hstep s).leads
    rw [← perform_snd] at leads
    obtain ⟨more, owns'⟩ := leads.owns sound.wellFormed owns
    have hvalues := Registry.values_perm sound.1 (sound.perform step).1 fun key => by
      rw [perform_snd]
      exact keeps_ofStep (hout key) s
    refine ⟨more ++ bare, ?_⟩
    rw [← List.append_assoc] at owns'
    exact owns'.perm ((slotsOf_perm hvalues).symm.append_left _)

theorem run (secure : s.Secure) (sound : s.Sound False) {steps : List (Step dim spacedim)}
    (hsteps : ∀ step ∈ steps, step.isBareRelease = false) : (s.run steps).2.Secure := by
  induction steps generalizing s with
  | nil => exact secure
  | cons step rest ih =>
    have first := secure.perform sound (hsteps step List.mem_cons_self)
    exact ih first (sound.perform step) fun later hlater =>
      hsteps later (List.mem_cons_of_mem step hlater)

/-- What a particle holds is live. -/
theorem isSome_contents (secure : s.Secure) (hp : s.particles.find? key = some p) :
    ∀ slot ∈ p.slots, (s.world.contents slot.1 slot.2).isSome := by
  obtain ⟨bare, owns⟩ := secure
  intro slot hslot
  refine owns.live slot (List.mem_append_right bare (List.mem_flatMap.mpr ⟨p, ?_, hslot⟩))
  exact Registry.mem_values_of_find? hp

theorem isSome_contents_of_slot {i : Nat} {h : Handle} (secure : s.Secure)
    (hp : s.particles.find? key = some p) (hs : p.slot? = some (i, h)) :
    (s.world.contents i h).isSome :=
  secure.isSome_contents hp (i, h) (by simp [slots_of_slot hs])

/-- A particle's handle is good in its pool. -/
theorem flawed?_eq_none {i : Nat} {h : Handle} {pl : Pool} (secure : s.Secure)
    (hp : s.particles.find? key = some p) (hs : p.slot? = some (i, h))
    (hpl : s.world.pool? i = some pl) : pl.flawed? h = none :=
  (World.flawed?_eq_none_iff hpl).mpr (secure.isSome_contents_of_slot hp hs)

/-- No two particles hold one slot. -/
theorem disjoint (secure : s.Secure) (sound : s.Sound False) (hne : other ≠ key)
    (hp : s.particles.find? key = some p) (hq : s.particles.find? other = some q) :
    p.slots.Disjoint q.slots := by
  obtain ⟨bare, owns⟩ := secure
  have hvalues := slotsOf_perm (Registry.values_of_find? sound.1 hp)
  have hnodup := (List.nodup_append.mp owns.nodup).2.1
  rw [hvalues.nodup_iff, slotsOf_cons, List.nodup_append] at hnodup
  intro slot hslot hslot'
  refine hnodup.2.2 slot hslot slot (List.mem_flatMap.mpr ⟨q, ?_, hslot'⟩) rfl
  exact Registry.mem_values_of_find? ((Registry.find?_erase_of_ne _ hne).trans hq)

end Secure

/-- Particles are secure wherever none but themselves release their slots. -/
theorem secure_reached {steps : List (Step dim spacedim)}
    (hsteps : ∀ step ∈ steps, step.isBareRelease = false) :
    (Session.run ({} : Session dim spacedim) steps).2.Secure :=
  secure_empty.run sound_empty hsteps

/-! ## The other particles -/

/-- The particles under all other keys look as they did. -/
def SparesOthers (s : Session dim spacedim) (key : Nat) (s' : Session dim spacedim) : Prop :=
  ∀ other ≠ key, s'.snapshot? other = s.snapshot? other

/-- One particle trades its slot, and the others look on. -/
theorem Secure.sparesOthers_put {w' : World} {held : List HeldSlot} (secure : s.Secure)
    (sound : s.Sound False) (hp : s.particles.find? key = some p)
    (htrade : Trade s.world p.slots w' held) (buffers : Registry Bytes) :
    s.SparesOthers key
      { s with world := w', particles := s.particles.insert key q, buffers } := by
  obtain ⟨bare, owns⟩ := secure
  have hvalues := slotsOf_perm (Registry.values_of_find? sound.1 hp)
  rw [slotsOf_cons] at hvalues
  have owns' := (owns.perm List.perm_append_comm).perm (hvalues.append_right bare)
  rw [List.append_assoc] at owns'
  obtain ⟨-, hframe, -⟩ := htrade.owns owns'
  intro other hne
  rw [snapshot?, snapshot?]
  simp only
  rw [Registry.find?_insert_of_ne _ _ hne]
  cases hr : s.particles.find? other with
  | none => rfl
  | some r =>
    have hrest : r ∈ (s.particles.erase key).values :=
      Registry.mem_values_of_find? ((Registry.find?_erase_of_ne _ hne).trans hr)
    refine congrArg some (snapshot_of_evolves sound.wellFormed htrade.evolves ?_ ?_)
    · exact fun slot hslot => owns.live slot (List.mem_append_right bare
        (List.mem_flatMap.mpr ⟨r, Registry.mem_values_of_find? hr, hslot⟩))
    · exact fun slot hslot => hframe slot (List.mem_append_left bare
        (List.mem_flatMap.mpr ⟨r, hrest, hslot⟩))

end Session

/-- The steps that work on the particle under a key, and on no other one. -/
def Step.isOn (key : Nat) : Step dim spacedim → Bool
  | .copyFrom p _ | .update p _ | .load p .. | .setLocation p _ | .setReference p _ | .setId p _ |
    .releaseSlot p | .moveTo p _ | .setValues p _ | .setValuesFromView p _ | .overwrite p _ => p == key
  | _ => false

namespace StepM

variable {s : Session dim spacedim} {key b : Nat} (secure : s.Secure) (sound : s.Sound False)

include secure sound

theorem others_revise {f : Particle dim spacedim → Action ParticleError (Particle dim spacedim)}
    (hf : ∀ p, s.particles.find? key = some p →
      (f p).Settles s.world fun q w' => q.MadeFrom p.slots s.world w') :
    (revise key f).Leaves s (s.SparesOthers key) :=
  .particle_bind (fun _ _ => rfl) fun p hp => .actOnParticle_bind (hf p hp) (fun _ _ _ => rfl)
    fun _ _ hmade => .of_exec rfl (secure.sparesOthers_put sound hp hmade.trade s.buffers)

theorem others_update : (update key b).Leaves s (s.SparesOthers key) :=
  .particle_bind (fun _ _ => rfl) fun _ hp => .buffer_bind <|
    .act_bind (update_settles _ sound.wellFormed (sound.placed hp)) (fun _ _ _ => rfl)
      fun _ _ hmade => .of_exec rfl (secure.sparesOthers_put sound hp hmade.trade _)

theorem others_load (chunk : Option Nat) : (load key b chunk).Leaves s (s.SparesOthers key) := by
  refine .particle_bind (fun _ _ => rfl) fun p hp => .buffer_bind ?_
  obtain ⟨result, left, w', he, -, hpost⟩ :=
    load_settles sound.wellFormed (sound.placed hp) chunk (s.bytes b)
  refine .bind_of_exec (exec_modifyGet _) ?_
  simp only [he]
  refine .bind_of_exec (exec_modify _) ?_
  cases result with
  | ok p' => exact .of_exec rfl (secure.sparesOthers_put sound hp hpost.trade _)
  | error failure =>
    obtain ⟨rfl, -⟩ := hpost
    exact .of_exec rfl fun _ _ => rfl

theorem others_setValuesFromView (v : Nat) :
    (setValuesFromView key v).Leaves s (s.SparesOthers key) :=
  .particle_bind (fun _ _ => rfl) fun _ hp => .viewed_bind (fun _ _ _ _ => rfl) fun values =>
    .actOnParticle_bind (setValues_settles values sound.wellFormed (sound.placed hp))
      (fun _ _ _ => rfl) fun _ _ hmade =>
        .of_exec rfl (secure.sparesOthers_put sound hp hmade.trade s.buffers)

end StepM

namespace Session

open StepM

variable {s : Session dim spacedim} {key : Nat}

/-- **What is done to one particle is seen of no other one.** -/
theorem Secure.others (secure : s.Secure) (sound : s.Sound False) {step : Step dim spacedim}
    (hstep : step.isOn key = true) : s.SparesOthers key (s.perform step).2 := by
  rw [perform_snd]
  refine leaves_iff.mp ?_
  cases step with
  | copyFrom p source =>
    obtain rfl := beq_iff_eq.mp hstep
    exact .particle_bind (fun _ _ => rfl) fun other hother => others_revise secure sound fun p hp =>
      copyFrom_settles sound.wellFormed (sound.placed hp) (sound.placed hother)
  | update p b =>
    obtain rfl := beq_iff_eq.mp hstep
    exact others_update secure sound
  | load p b chunk =>
    obtain rfl := beq_iff_eq.mp hstep
    exact others_load secure sound chunk
  | setLocation p | setReference p | setId p =>
    obtain rfl := beq_iff_eq.mp hstep
    exact others_revise secure sound fun p hp =>
      settles_ok rfl (madeFrom_self (sound.placed hp) rfl rfl)
  | releaseSlot p =>
    obtain rfl := beq_iff_eq.mp hstep
    exact others_revise secure sound fun p hp =>
      releaseSlot_settles sound.wellFormed (sound.placed hp)
  | moveTo p i =>
    obtain rfl := beq_iff_eq.mp hstep
    exact .poolPosition_bind (fun _ _ => rfl) fun pl hpl => others_revise secure sound fun p hp =>
      moveTo_settles sound.wellFormed (sound.placed hp) hpl
  | setValues p values =>
    obtain rfl := beq_iff_eq.mp hstep
    exact others_revise secure sound fun p hp =>
      setValues_settles values sound.wellFormed (sound.placed hp)
  | setValuesFromView p v =>
    obtain rfl := beq_iff_eq.mp hstep
    exact others_setValuesFromView secure sound v
  | overwrite p values =>
    obtain rfl := beq_iff_eq.mp hstep
    refine .particle_bind (fun _ _ => rfl) fun q hq => ?_
    refine .actOnParticle_bind (overwrite_settles values sound.wellFormed (sound.placed hq))
      (fun _ _ _ => rfl) fun after w' htrade => .of_exec rfl fun other hne => ?_
    -- the particle put back is the one that was there
    have hput := secure.sparesOthers_put (q := q) sound hq htrade s.buffers other hne
    rw [snapshot?, snapshot?] at hput ⊢
    simp only at hput ⊢
    rwa [Registry.find?_insert_of_ne _ _ hne] at hput
  | _ => cases hstep

end Session

end ParticleStore
