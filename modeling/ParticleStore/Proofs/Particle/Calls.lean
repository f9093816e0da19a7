/-
ParticleStore.Proofs.Particle.Calls — operations on particles as calls on pools.

Every operation on a particle or on a batch of particles is put together of calls on pools
that have nothing to do with views: allocating, duplicating, releasing and writing
slots by their handles. The lemmas follow the definitions branch by branch; that the
branches which take something back are never reached on well-formed pools makes no
difference here.
-/
import ParticleStore.Batch
import ParticleStore.Particle.Copy
import ParticleStore.Proofs.World.Calls

namespace ParticleStore

open ParticleStore.Action World PoolCall

variable {dim spacedim : Nat} {w : World}

namespace World

theorem guided_allocateFilled (i : Nat) (values : List Scalar) :
    (allocateFilled i values).Guided := by
  unfold allocateFilled
  refine ((Guided.allocate i).mapCause _).bind fun h => ((Guided.setValues i h values).outcome).bind ?_
  rintro (cause | ⟨⟩)
  · exact ((Guided.release i h).outcome).bind fun _ => .refuse _
  · exact .pure h

end World

namespace Particle

variable (p : Particle dim spacedim)

theorem guided_overwrite (new : List Scalar) : (p.overwrite new).Guided := by
  unfold overwrite
  split
  · exact .refuse _
  · exact (Guided.overwrite _ _ new).mapCause _

theorem guided_setValues (new : List Scalar) : (p.setValues new).Guided := by
  unfold setValues
  split
  · exact .refuse _
  · rename_i i _
    refine (Guided.query _).bind fun stride => ?_
    split
    · exact .refuse _
    · split
      · exact ((Guided.setValues i p.handle new).mapCause _).bind fun _ => .pure p
      · exact (guided_allocateFilled i new).bind fun _ => .pure _

theorem guided_releaseSlot {ε : Type} : (p.releaseSlot : Action ε _).Guided := by
  unfold releaseSlot
  split
  · exact .pure p
  · rename_i i h _
    refine ((Guided.release i h).outcome).bind ?_
    rintro (cause | left)
    · exact (Guided.note _).bind fun _ => .pure _
    · exact .pure _

theorem guided_drop {ε : Type} : (p.drop : Action ε Unit).Guided :=
  (guided_releaseSlot p).map _

theorem guided_dropAll {ε : Type} (ps : List (Particle dim spacedim)) :
    (dropAll ps : Action ε Unit).Guided := by
  induction ps with
  | nil => exact .pure ()
  | cons p rest ih => exact (guided_drop p).bind fun _ => ih

theorem guided_moveTo (target : Nat) : (p.moveTo target).Guided := by
  unfold moveTo
  refine (Guided.query _).bind fun targetPool => ?_
  split
  · exact .pure _
  · rename_i i h _
    refine (Guided.query _).bind fun sourcePool => ?_
    split
    · exact .refuse _
    · refine ((Guided.query _).mapCause _).bind fun values =>
        (guided_allocateFilled target values).bind fun moved => ((Guided.release i h).outcome).bind ?_
      rintro (cause | left)
      · exact ((Guided.release target moved).outcome).bind fun _ => .refuse _
      · exact (Guided.note _).bind fun _ => .pure _

theorem guided_copy : p.copy.Guided := by
  unfold copy
  split
  · exact .pure _
  · exact ((Guided.duplicate _ _).mapCause _).bind fun _ => .pure _

theorem guided_copyFrom (source : Particle dim spacedim) : (p.copyFrom source).Guided := by
  unfold copyFrom
  split
  · exact (guided_releaseSlot p).bind fun _ => .pure _
  · rename_i i h _
    split
    · refine ((Guided.query _).mapCause _).bind fun values => ?_
      exact ((Guided.setValues i p.handle values).mapCause _).bind fun _ => .pure _
    · refine ((Guided.duplicate i h).mapCause _).bind fun copy => ?_
      exact (guided_releaseSlot p).bind fun _ => .pure _

/-! ## Records -/

theorem guided_ofRecord (pool : Option Nat) (r : Record dim spacedim) :
    (ofRecord pool r).Guided := by
  unfold ofRecord
  split
  · exact .pure _
  · exact (Guided.query _).bind fun i => (guided_allocateFilled i r.values).bind fun _ => .pure _

theorem guided_ofBytes (dim spacedim : Nat) (pool : Option Nat) (input : Bytes) :
    (ofBytes pool input : Action ParticleError (Particle dim spacedim × Bytes)).Guided :=
  (Guided.ofAttempt _).bind fun result =>
    (guided_ofRecord pool result.1).bind fun _ => .pure _

theorem guided_update (input : Bytes) : (p.update input).Guided := by
  unfold update
  refine (Guided.ofAttempt _).bind fun result => (Guided.query _).bind fun expected => ?_
  split
  · exact .refuse _
  · split
    · exact .pure _
    · exact ((Guided.setValues _ _ result.1.values).mapCause _).bind fun _ => .pure _

theorem guided_absorb (r : Record dim spacedim) : (p.absorb r).Guided := by
  unfold absorb
  split
  · exact .pure _
  · refine (Guided.query _).bind fun i => ?_
    split
    · exact ((Guided.setValues i p.handle r.values).mapCause _).bind fun _ => .pure _
    · exact (guided_allocateFilled i r.values).bind fun _ => .pure _

theorem leads_load (chunk : Option Nat) (source : Bytes) :
    ∃ events, w.Leads isQuiet events ((p.load chunk source).run w).2 := by
  unfold load
  rw [StateT.run_bind, StateT.run_get]
  simp only [pure_bind]
  cases receiveRecord dim spacedim chunk (p.accepts w) source with
  | mk received left =>
    cases received with
    | error failure => exact ⟨[], .refl w⟩
    | ok bytes =>
      simp only [Attempt.ofDecoder]
      cases (Record.decoder dim spacedim).run bytes with
      | error cause => exact ⟨[], .refl w⟩
      | ok result => exact guided_absorb p result.1 w

end Particle

namespace Batch

open Particle

theorem leads_giveUp (made : List (Particle dim spacedim)) (failure : Failure ParticleError)
    (rest : Bytes) : ∃ events, w.Leads isQuiet events ((giveUp made failure rest).run w).2 := by
  have leads := guided_dropAll (ε := ParticleError) made w
  unfold exec at leads
  unfold giveUp
  rw [StateT.run_bind]
  cases hrun : (dropAll made : Action ParticleError Unit).run.run w with
  | mk result w' =>
    rw [hrun] at leads
    cases result <;> exact leads

theorem leads_decodeOnto (pool : Option Nat) (made : List (Particle dim spacedim)) (input : Bytes) :
    ∃ events, w.Leads isQuiet events ((decodeOnto pool made input).run w).2 := by
  -- along the recursion, one record after the other
  fun_induction decodeOnto pool made input generalizing w with
  | case1 made input hempty => exact ⟨_, .of_call (.note (.batchDecoded made.length)) rfl⟩
  | case2 made input hempty cause hd => exact leads_giveUp made _ input
  | case3 made input hempty r rest hd hlt ih =>
    obtain ⟨events, leads⟩ := guided_ofRecord pool r w
    unfold exec at leads
    rw [StateT.run_bind]
    cases hrun : (ofRecord pool r).run.run w with
    | mk result w' =>
      rw [hrun] at leads
      cases result with
      | error failure =>
        obtain ⟨events', leads'⟩ := leads_giveUp (w := w') made failure input
        exact ⟨_, leads.trans leads'⟩
      | ok p =>
        obtain ⟨events', leads'⟩ := ih p (w := w')
        exact ⟨_, leads.trans leads'⟩

end Batch

end ParticleStore
