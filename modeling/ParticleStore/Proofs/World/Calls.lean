/-
ParticleStore.Proofs.World.Calls — calls on pools, and the slots that they take and give back.

Whatever a particle or a session does to the pools it does by calling them. `PoolCall` lists
the calls, and `World.call` answers with the slots that a call has issued or released:
nothing if it was refused. `Leads allowed w events w'` says that some allowed calls lead
from the world `w` to the world `w'`, with these slots issued and released on the way.

An action is `Guided` if all that it does to any world is done by calls that leave the
count of open views alone. Actions are put together of a few constructors, and each of
them is guided if its parts are; nothing is assumed of the world, so this holds of an
action on forged and stale handles as well.
-/
import ParticleStore.Proofs.Action

namespace ParticleStore

/-- A slot is taken, or given back. -/
inductive SlotEvent where
  /-- The pool at a position issues a handle. -/
  | issued (pool : Nat) (h : Handle)
  /-- A slot of the pool at a position is released through a handle. -/
  | released (pool : Nat) (h : Handle)
deriving DecidableEq

/-- What can be asked of the pools of a world. -/
inductive PoolCall where
  | makePool (config : PoolConfig)
  | takeId
  | reserve (pool n : Nat)
  | allocate (pool : Nat)
  | duplicate (pool : Nat) (h : Handle)
  | release (pool : Nat) (h : Handle)
  | setValues (pool : Nat) (h : Handle) (values : List Scalar)
  | overwrite (pool : Nat) (h : Handle) (values : List Scalar)
  | openView (pool : Nat) (h : Handle) (writable : Bool)
  | overwriteAt (pool position : Nat) (values : List Scalar)
  | closeView (pool : Nat) (v : View)
  | note (e : Event)
deriving DecidableEq

namespace PoolCall

/-- The call neither opens nor closes a view, nor writes through one. -/
def isQuiet : PoolCall → Bool
  | openView .. | overwriteAt .. | closeView .. => false
  | _ => true

/-- Every call is allowed. -/
def isAny (_ : PoolCall) : Bool := true

end PoolCall

namespace World

open PoolCall

variable {w w' w'' : World} {allowed : PoolCall → Bool} {events events' : List SlotEvent}

/-! ## Calls -/

/-- The events of an action that tells them of its result, and the world after it. -/
def told {ε α : Type} (events : α → List SlotEvent) :
    Attempt ε α × World → List SlotEvent × World
  | (.ok a, w) => (events a, w)
  | (.error _, w) => ([], w)

/-- The slots that a call has issued and released, and the world after it. -/
def call (w : World) : PoolCall → List SlotEvent × World
  | .makePool config => ([], (w.addPool config).2)
  | .takeId => ([], w.takeId.2)
  | .reserve i n => ([], w.reserve i n)
  | .allocate i => told (fun h => [.issued i h]) ((World.allocate i).exec w)
  | .duplicate i h => told (fun copy => [.issued i copy]) ((World.duplicate i h).exec w)
  | .release i h => told (fun _ => [.released i h]) ((World.release i h).exec w)
  | .setValues i h values => ([], ((World.setValues i h values).exec w).2)
  | .overwrite i h values => ([], ((World.overwrite i h values).exec w).2)
  | .openView i h writable => ([], ((onPool i (·.openView h writable)).exec w).2)
  | .overwriteAt i position values => ([], ((onPool i (·.overwriteAt position values)).exec w).2)
  | .closeView i v => ([], ((onPool i fun p => return ((), p.closeView v)).exec w).2)
  | .note e => ([], { w with events := w.events ++ [e] })

theorem call_allocate (w : World) (i : Nat) :
    w.call (.allocate i) = told (fun h => [.issued i h]) ((World.allocate i).exec w) := rfl

theorem call_duplicate (w : World) (i : Nat) (h : Handle) :
    w.call (.duplicate i h) = told (fun copy => [.issued i copy]) ((World.duplicate i h).exec w) := rfl

theorem call_release (w : World) (i : Nat) (h : Handle) :
    w.call (.release i h) = told (fun _ => [.released i h]) ((World.release i h).exec w) := rfl

/-- Nothing comes of a call on a pool that is not there. -/
theorem told_onPool_of_none {α : Type} {i : Nat} {f : Pool → Attempt PoolError (α × Pool)}
    (tell : α → List SlotEvent) (hp : w.pool? i = none) :
    told tell ((onPool i f).exec w) = ([], w) := by
  rw [exec_onPool, hp]
  rfl

/-- The slots that calls have issued and released, one call after the other. -/
def callAll (w : World) : List PoolCall → List SlotEvent × World
  | [] => ([], w)
  | c :: rest =>
    let (first, w) := w.call c
    let (later, w) := w.callAll rest
    (first ++ later, w)

theorem callAll_cons (c : PoolCall) (rest : List PoolCall) :
    w.callAll (c :: rest) =
      ((w.call c).1 ++ ((w.call c).2.callAll rest).1, ((w.call c).2.callAll rest).2) := rfl

theorem callAll_append (calls rest : List PoolCall) :
    w.callAll (calls ++ rest) =
      ((w.callAll calls).1 ++ ((w.callAll calls).2.callAll rest).1,
        ((w.callAll calls).2.callAll rest).2) := by
  induction calls generalizing w with
  | nil => rfl
  | cons c later ih => rw [List.cons_append, callAll_cons, callAll_cons, ih, List.append_assoc]

/-- What every call keeps of the events so far and the world is kept by all calls. -/
theorem callAll_induction {P : List SlotEvent → World → Prop} {calls : List PoolCall}
    (step : ∀ past w, ∀ c ∈ calls, P past w → P (past ++ (w.call c).1) (w.call c).2)
    {past : List SlotEvent} (hstart : P past w) :
    P (past ++ (w.callAll calls).1) (w.callAll calls).2 := by
  induction calls generalizing past w with
  | nil => simpa [callAll] using hstart
  | cons c rest ih =>
    rw [callAll_cons, ← List.append_assoc]
    exact ih (fun past w later hlater => step past w later (List.mem_cons_of_mem c hlater))
      (step past w c List.mem_cons_self hstart)

/-! ## Runs of calls -/

/-- Allowed calls lead from one world to another, with these slots issued and released. -/
def Leads (allowed : PoolCall → Bool) (w : World) (events : List SlotEvent) (w' : World) : Prop :=
  ∃ calls, (∀ c ∈ calls, allowed c = true) ∧ w.callAll calls = (events, w')

namespace Leads

theorem refl (w : World) : w.Leads allowed [] w := ⟨[], by simp, rfl⟩

theorem trans (l : w.Leads allowed events w') (l' : w'.Leads allowed events' w'') :
    w.Leads allowed (events ++ events') w'' := by
  obtain ⟨calls, hcalls, hrun⟩ := l
  obtain ⟨calls', hcalls', hrun'⟩ := l'
  refine ⟨calls ++ calls', fun c hc => ?_, ?_⟩
  · exact (List.mem_append.mp hc).elim (hcalls c) (hcalls' c)
  · rw [callAll_append, hrun, hrun']

theorem of_call (c : PoolCall) (hallowed : allowed c = true) :
    w.Leads allowed (w.call c).1 (w.call c).2 :=
  ⟨[c], by simpa using hallowed, by rw [callAll_cons]; simp [callAll]⟩

/-- An action that does what a call does, which tells what it has issued and released. -/
theorem of_told {ε α : Type} {action : Action ε α} {c : PoolCall} {tell : α → List SlotEvent}
    (hallowed : allowed c = true) (hcall : w.call c = told tell (action.exec w)) :
    ∃ events, w.Leads allowed events (action.exec w).2 := by
  have leads := of_call (w := w) c hallowed
  rw [hcall] at leads
  cases hexec : action.exec w with
  | mk result w' =>
    rw [hexec] at leads
    cases result <;> exact ⟨_, leads⟩

/-- Whatever calls are allowed, they are calls. -/
theorem any (l : w.Leads allowed events w') : w.Leads isAny events w' := by
  obtain ⟨calls, -, hrun⟩ := l
  exact ⟨calls, fun _ _ => rfl, hrun⟩

/-- What every allowed call keeps of a world is kept. -/
theorem keeps {P : World → Prop} (l : w.Leads allowed events w')
    (step : ∀ w c, allowed c = true → P w → P (w.call c).2) (hstart : P w) : P w' := by
  obtain ⟨calls, hcalls, hrun⟩ := l
  have hkept := @callAll_induction w (fun _ w => P w) calls
    (fun _ w c hc hw => step w c (hcalls c hc) hw) [] hstart
  rwa [hrun] at hkept

end Leads

end World

namespace Action

open World PoolCall

variable {ε ε' α β : Type} {action : Action ε α}

/-! ## Guided actions -/

/-- All that the action does to a world, calls can do that have nothing to do with views. -/
def Guided (action : Action ε α) : Prop :=
  ∀ w : World, ∃ events, w.Leads isQuiet events (action.exec w).2

namespace Guided

/-- An action that only looks. -/
theorem of_same (hsame : ∀ w, (action.exec w).2 = w) : action.Guided := fun w =>
  ⟨[], by rw [hsame w]; exact .refl w⟩

theorem pure (a : α) : (Pure.pure a : Action ε α).Guided := of_same fun _ => rfl

theorem refuse (cause : ε) : (Action.refuse cause : Action ε α).Guided := of_same fun _ => rfl

theorem ofAttempt (a : Attempt ε α) : (Action.ofAttempt a).Guided := of_same fun _ => rfl

theorem query (f : World → Attempt ε α) : (Action.query f).Guided := of_same fun _ => rfl

theorem note (e : Event) : (Action.note e : Action ε Unit).Guided := fun _ =>
  ⟨[], .of_call (.note e) rfl⟩

theorem bind {f : α → Action ε β} (hx : action.Guided) (hf : ∀ a, (f a).Guided) :
    (action >>= f).Guided := by
  intro w
  obtain ⟨events, leads⟩ := hx w
  rw [exec_bind]
  cases hexec : action.exec w with
  | mk result w' =>
    rw [hexec] at leads
    cases result with
    | error failure => exact ⟨events, leads⟩
    | ok a =>
      obtain ⟨events', leads'⟩ := hf a w'
      exact ⟨events ++ events', leads.trans leads'⟩

theorem map (f : α → β) (hx : action.Guided) : (f <$> action).Guided := by
  rw [map_eq_pure_bind]
  exact hx.bind fun a => .pure (f a)

theorem mapCause (f : ε → ε') (hx : action.Guided) : (action.mapCause f).Guided := fun w => by
  rw [exec_mapCause]
  exact hx w

theorem outcome (hx : action.Guided) : (action.outcome : Action ε' (Except ε α)).Guided := by
  intro w
  have hw := hx w
  rw [exec_outcome]
  cases hexec : action.exec w with
  | mk result w' =>
    rw [hexec] at hw
    cases result with
    | ok a => exact hw
    | error failure => cases failure <;> exact hw

theorem allocate (i : Nat) : (World.allocate i).Guided := fun _ =>
  Leads.of_told (c := .allocate i) rfl rfl

theorem duplicate (i : Nat) (h : Handle) : (World.duplicate i h).Guided := fun _ =>
  Leads.of_told (c := .duplicate i h) rfl rfl

theorem release (i : Nat) (h : Handle) : (World.release i h).Guided := fun _ =>
  Leads.of_told (c := .release i h) rfl rfl

theorem setValues (i : Nat) (h : Handle) (values : List Scalar) :
    (World.setValues i h values).Guided := fun _ => ⟨_, .of_call (.setValues i h values) rfl⟩

theorem overwrite (i : Nat) (h : Handle) (values : List Scalar) :
    (World.overwrite i h values).Guided := fun _ => ⟨_, .of_call (.overwrite i h values) rfl⟩

end Guided

end Action

end ParticleStore
