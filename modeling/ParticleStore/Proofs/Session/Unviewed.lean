/-
ParticleStore.Proofs.Session.Unviewed — releasing does not look at views.

`unviewed` forgets that views are open: every pool counts none. An action is `Blind` if
forgetting the views before it and forgetting them after it come to the same, with the
same result. Releasing a slot through its handle is blind, and so is all that is made of
releases: giving a particle's slot back, dropping a particle, and putting another particle
in its place (`perform_unviewed`).
-/
import ParticleStore.Proofs.Session.Exec

namespace ParticleStore

open ParticleStore.Action

variable {dim spacedim : Nat} {ε ε' α β : Type}

namespace Pool

variable {p p' : Pool} {h : Handle}

/-- The pool as if no view were open. -/
def unviewed (p : Pool) : Pool := { p with readers := 0, writers := 0 }

@[simp] theorem unviewed_viewOpened (writable : Bool) :
    (p.viewOpened writable).unviewed = p.unviewed := by
  cases writable <;> rfl

@[simp] theorem unviewed_closeView (v : View) : (p.closeView v).unviewed = p.unviewed := by
  unfold closeView
  split <;> rfl

/-- Releasing takes no notice of views. -/
theorem release_unviewed (p : Pool) (h : Handle) :
    p.unviewed.release h = (p.release h).map fun result => (result.1, result.2.unviewed) := by
  unfold release
  rw [show p.unviewed.demand h = p.demand h from rfl, show p.unviewed.slots = p.slots from rfl,
    show p.unviewed.live = p.live from rfl]
  cases p.demand h with
  | error failure => rfl
  | ok i =>
    simp only [bind, Except.bind]
    cases p.slots[i]? with
    | none => rfl
    | some slot =>
      simp only
      cases (Attempt.require (0 < p.live) .noLiveSlot : Attempt PoolError Unit) with
      | error failure => rfl
      | ok => rfl

end Pool

namespace World

variable {w w' : World} {i : Nat} {p p' : Pool}

/-- The pools as if no view were open. -/
def unviewed (w : World) : World := { w with pools := w.pools.map Pool.unviewed }

theorem pool?_unviewed (w : World) (i : Nat) : w.unviewed.pool? i = (w.pool? i).map Pool.unviewed :=
  List.getElem?_map

theorem unviewed_setPool (w : World) (i : Nat) (p : Pool) :
    (w.setPool i p).unviewed = w.unviewed.setPool i p.unviewed := by
  simp [unviewed, setPool, List.map_set]

/-- Views are counted anew, and nothing else changes. -/
theorem unviewed_setPool_self (hp : w.pool? i = some p) (hsame : p'.unviewed = p.unviewed) :
    (w.setPool i p').unviewed = w.unviewed := by
  have hget : w.unviewed.pools[i]? = some p.unviewed := by
    show w.unviewed.pool? i = _
    rw [pool?_unviewed, hp]
    rfl
  obtain ⟨hlt, hat⟩ := List.getElem?_eq_some_iff.mp hget
  rw [unviewed_setPool, hsame, setPool, ← hat, List.set_getElem_self hlt]

theorem pool?_of_unviewed (hsame : w'.unviewed = w.unviewed) (hp : w.pool? i = some p) :
    ∃ p', w'.pool? i = some p' ∧ p'.unviewed = p.unviewed := by
  have hpool := congrArg (fun w => pool? w i) hsame
  simp only [pool?_unviewed, hp, Option.map_some] at hpool
  exact Option.map_eq_some_iff.mp hpool

end World

namespace Action

/-- The action does the same whether views are open or not. -/
def Blind (action : Action ε α) : Prop :=
  ∀ w : World, action.exec w.unviewed = ((action.exec w).1, (action.exec w).2.unviewed)

namespace Blind

variable {action : Action ε α}

theorem pure (a : α) : (Pure.pure a : Action ε α).Blind := fun _ => rfl

theorem note (e : Event) : (Action.note e : Action ε Unit).Blind := fun _ => rfl

theorem bind {f : α → Action ε β} (hx : action.Blind) (hf : ∀ a, (f a).Blind) :
    (action >>= f).Blind := by
  intro w
  rw [exec_bind, exec_bind, hx w]
  cases action.exec w with
  | mk result w' =>
    cases result with
    | error failure => rfl
    | ok a => exact hf a w'

theorem map (f : α → β) (hx : action.Blind) : (f <$> action).Blind := by
  rw [map_eq_pure_bind]
  exact hx.bind fun a => .pure (f a)

theorem outcome (hx : action.Blind) : (action.outcome : Action ε' (Except ε α)).Blind := by
  intro w
  rw [exec_outcome, exec_outcome, hx w]
  cases action.exec w with
  | mk result w' =>
    cases result with
    | ok a => rfl
    | error failure => cases failure <;> rfl

theorem release (i : Nat) (h : Handle) : (World.release i h).Blind := by
  intro w
  unfold World.release
  rw [World.exec_onPool, World.exec_onPool, World.pool?_unviewed]
  cases w.pool? i with
  | none => rfl
  | some p =>
    simp only [Option.map_some, Pool.release_unviewed]
    cases p.release h with
    | error failure => rfl
    | ok result =>
      show (Except.ok result.1, w.unviewed.setPool i result.2.unviewed) = _
      rw [← World.unviewed_setPool]

end Blind

end Action

namespace Particle

variable (p : Particle dim spacedim)

theorem blind_releaseSlot : (p.releaseSlot : Action ε _).Blind := by
  unfold releaseSlot
  split
  · exact .pure p
  · rename_i i h _
    refine ((Blind.release i h).outcome).bind ?_
    rintro (cause | left)
    · exact (Blind.note _).bind fun _ => .pure _
    · exact .pure _

theorem blind_drop : (p.drop : Action ε Unit).Blind := (blind_releaseSlot p).map _

end Particle

/-! ## Steps -/

/-- The steps that release slots, or drop particles, and take none. -/
def Step.isReleasing : Step dim spacedim → Bool
  | .release .. | .releaseSlot .. | .drop .. | .take .. | .make .. | .makeAt .. => true
  | _ => false

/-- The session as if no view were open. -/
def Session.unviewed (s : Session dim spacedim) : Session dim spacedim :=
  { s with world := s.world.unviewed }

namespace StepM

open Particle

/-- A part of a step does the same whether views are open or not. -/
def Blind (m : StepM dim spacedim α) : Prop :=
  ∀ s : Session dim spacedim, m.exec s.unviewed = ((m.exec s).1, (m.exec s).2.unviewed)

namespace Blind

theorem of_pure (a : α) : (pure a : StepM dim spacedim α).Blind := fun _ => rfl

theorem of_stop (answer : Answer dim spacedim) : (stop answer : StepM dim spacedim α).Blind :=
  fun _ => rfl

theorem bind {m : StepM dim spacedim α} {f : α → StepM dim spacedim β} (hm : m.Blind)
    (hf : ∀ a, (f a).Blind) : (m >>= f).Blind := by
  intro s
  rw [exec_bind, exec_bind, hm s]
  cases m.exec s with
  | mk result s' =>
    cases result with
    | error answer => rfl
    | ok a => exact hf a s'

/-- What comes after a look at the session may depend on it, but not on whether views are open. -/
theorem of_get {f : Session dim spacedim → StepM dim spacedim β}
    (hf : ∀ s, (f s).exec s.unviewed = (((f s).exec s).1, ((f s).exec s).2.unviewed))
    (hsame : ∀ s : Session dim spacedim, f s.unviewed = f s) : (get >>= f).Blind := fun s => by
  rw [exec_bind, exec_bind, exec_get, exec_get]
  simp only [hsame s]
  exact hf s

theorem found (what : String) (o : Option α) : (found what o : StepM dim spacedim α).Blind := by
  cases o with
  | none => exact .of_stop _
  | some a => exact .of_pure a

theorem act {action : Action ε α} (haction : action.Blind) :
    (StepM.act action : StepM dim spacedim _).Blind := by
  intro s
  show ((Except.ok (action.exec s.world.unviewed).1 : Except (Answer dim spacedim) _),
    ({ s with world := (action.exec s.world.unviewed).2 } : Session dim spacedim)) = _
  rw [haction s.world]
  rfl

theorem actOnParticle {action : Action ParticleError α} (haction : action.Blind) :
    (StepM.actOnParticle action : StepM dim spacedim _).Blind := by
  refine (Blind.act haction).bind fun result => ?_
  cases result with
  | ok a => exact .of_pure a
  | error failure => exact .of_stop _

theorem particle (key : Nat) : (StepM.particle key : StepM dim spacedim _).Blind :=
  fun s => found "particle" (s.particles.find? key) s

theorem keptHandle (key : Nat) : (StepM.keptHandle key : StepM dim spacedim _).Blind :=
  fun s => found "handle" (s.handles.find? key) s

theorem poolPosition (i : Nat) : (StepM.poolPosition i : StepM dim spacedim _).Blind := by
  intro s
  unfold StepM.poolPosition
  rw [exec_pool_bind, exec_pool_bind]
  have hpool : s.unviewed.world.pool? i = (s.world.pool? i).map Pool.unviewed :=
    World.pool?_unviewed s.world i
  rw [hpool]
  cases s.world.pool? i <;> rfl

theorem putBack (key : Nat) (p : Particle dim spacedim) : (StepM.putBack key p).Blind := fun _ => rfl

theorem keepHandle (key : Nat) (h : Handle) :
    (StepM.keepHandle key h : StepM dim spacedim _).Blind := fun _ => rfl

/-- The particle that was there is dropped. -/
theorem store (key : Nat) (p : Particle dim spacedim) : (StepM.store key p).Blind := by
  refine .of_get (fun s => ?_) fun _ => rfl
  cases s.particles.find? key with
  | none => exact ((putBack key p).bind fun _ => .of_pure ()) s
  | some old => exact ((putBack key p).bind fun _ => .actOnParticle (blind_drop old)) s

theorem storeNew (key : Nat) (p : Particle dim spacedim) : (StepM.storeNew key p).Blind :=
  (store key p).bind fun _ => .of_pure _

theorem release (i key : Nat) : (StepM.release i key : StepM dim spacedim _).Blind := by
  refine (poolPosition i).bind fun i => (keptHandle key).bind fun h =>
    (Blind.act (Action.Blind.release i h)).bind fun result => ?_
  cases result with
  | ok left => exact (keepHandle key left).bind fun _ => .of_pure _
  | error failure => exact .of_pure _

theorem take (key dest : Nat) : (StepM.take key dest : StepM dim spacedim _).Blind :=
  (particle key).bind fun p => (putBack key p.take.2).bind fun _ =>
    (store dest p.take.1).bind fun _ => .of_pure _

theorem drop (key : Nat) : (StepM.drop key : StepM dim spacedim _).Blind := by
  intro s
  unfold StepM.drop
  rw [exec_bind, exec_bind, exec_get, exec_get]
  have hsame : s.unviewed.particles.find? key = s.particles.find? key := rfl
  simp only [hsame]
  cases s.particles.find? key with
  | none => rfl
  | some p =>
    exact ((actOnParticle (blind_drop p)).bind fun _ => of_pure (Answer.flag true))
      ({ s with particles := s.particles.erase key } : Session dim spacedim)

end Blind

end StepM

namespace Session

open StepM

variable {s : Session dim spacedim}

/-- **A release succeeds as if no view were open**, with the same answer and the same effect. -/
theorem perform_unviewed {step : Step dim spacedim} (hstep : step.isReleasing = true) :
    s.unviewed.perform step = ((s.perform step).1, (s.perform step).2.unviewed) := by
  have hblind : (ofStep step).Blind := by
    cases step with
    | release i key => exact .release i key
    | releaseSlot key =>
      exact (Blind.particle key).bind fun p =>
        (Blind.actOnParticle (Particle.blind_releaseSlot p)).bind fun p' =>
          (Blind.putBack key p').bind fun _ => .of_pure _
    | drop key => exact .drop key
    | take key dest => exact .take key dest
    | make key => exact .storeNew key _
    | makeAt key location reference id => exact .storeNew key _
    | _ => cases hstep
  rw [perform_eq, perform_eq, hblind s]
  cases (ofStep step).exec s with
  | mk result s' => cases result <;> rfl

end Session

end ParticleStore
