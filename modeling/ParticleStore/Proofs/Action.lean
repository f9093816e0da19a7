/-
ParticleStore.Proofs.Action — what an action does to a world.

`exec action w` is the result of an action on the world `w`, with the world after
it. One lemma for each way to build an action says what it does, so no proof above
this module opens the monad. An action that a list of checks decides leaves the
world alone where a check finds a cause, and has a result and a new world where
none does: `decided cause w a w'`. The lemmas on `decided` follow the same
constructions, and two of them matter most: `exec_bind_decided` puts a second list of
checks behind a first that only looked, and `exec_bind_ok` puts a step that cannot
fail behind one that changed the world.
-/
import ParticleStore.Proofs.World.Update

namespace ParticleStore

namespace Action

variable {ε ε' α β : Type}

/-- The result of an action on a world, and the world after it. -/
def exec (action : Action ε α) (w : World) : Attempt ε α × World := action.run.run w

@[simp] theorem exec_pure (a : α) (w : World) : (pure a : Action ε α).exec w = (.ok a, w) := rfl

theorem exec_bind (x : Action ε α) (f : α → Action ε β) (w : World) :
    (x >>= f).exec w =
      match x.exec w with
      | (.ok a, w') => (f a).exec w'
      | (.error failure, w') => (.error failure, w') := by
  show ((x >>= f).run).run w = match x.run.run w with | (.ok a, w') => _ | (.error _, w') => _
  rw [ExceptT.run_bind, StateT.run_bind]
  cases x.run.run w with
  | mk result w' => cases result <;> rfl

theorem exec_map (f : α → β) (x : Action ε α) (w : World) :
    (f <$> x).exec w =
      match x.exec w with
      | (.ok a, w') => (.ok (f a), w')
      | (.error failure, w') => (.error failure, w') := by
  rw [map_eq_pure_bind, exec_bind]
  rfl

@[simp] theorem exec_ofAttempt (a : Attempt ε α) (w : World) : (ofAttempt a).exec w = (a, w) := rfl

@[simp] theorem exec_refuse (cause : ε) (w : World) :
    (refuse cause : Action ε α).exec w = (Attempt.refuse cause, w) := rfl

@[simp] theorem exec_query (f : World → Attempt ε α) (w : World) : (query f).exec w = (f w, w) := rfl

@[simp] theorem exec_change (f : World → World) (w : World) :
    (change f : Action ε Unit).exec w = (.ok (), f w) := rfl

@[simp] theorem exec_note (e : Event) (w : World) :
    (note e : Action ε Unit).exec w = (.ok (), { w with events := w.events ++ [e] }) := rfl

theorem exec_mapCause (f : ε → ε') (x : Action ε α) (w : World) :
    (x.mapCause f).exec w = ((x.exec w).1.mapCause f, (x.exec w).2) := rfl

theorem exec_outcome (x : Action ε α) (w : World) :
    (x.outcome : Action ε' (Except ε α)).exec w =
      match x.exec w with
      | (.ok a, w') => (.ok (.ok a), w')
      | (.error (.refused cause), w') => (.ok (.error cause), w')
      | (.error (.broken fault), w') => (.error (.broken fault), w') := by
  unfold outcome exec
  show StateT.run _ w = _
  simp only [ExceptT.run_mk, StateT.run_bind]
  cases x.run.run w with
  | mk result w' =>
    cases result with
    | ok a => rfl
    | error failure => cases failure <;> rfl

/-! ## Actions that checks decide -/

/-- Refused without a trace for the cause there is, or else successful. -/
def decided (cause : Option ε) (w : World) (a : α) (w' : World) : Attempt ε α × World :=
  match cause with
  | some e => (Attempt.refuse e, w)
  | none => (.ok a, w')

@[simp] theorem decided_none (w : World) (a : α) (w' : World) :
    decided (none : Option ε) w a w' = (.ok a, w') := rfl

@[simp] theorem decided_some (e : ε) (w : World) (a : α) (w' : World) :
    decided (some e) w a w' = (Attempt.refuse e, w) := rfl

theorem decided_eq_ok_iff {cause : Option ε} {w w₁ w₂ : World} {a b : α} :
    decided cause w a w₁ = (.ok b, w₂) ↔ cause = none ∧ a = b ∧ w₁ = w₂ := by
  cases cause <;> simp [Attempt.refuse]

theorem decided_self (cause : Option ε) (w : World) (a : α) :
    decided cause w a w = (.decided cause a, w) := by
  cases cause <;> rfl

variable {x : Action ε α} {f : α → Action ε β} {w w₁ w₂ : World} {a : α} {b : β}
  {first second : Option ε}

/-- Checks behind checks: nothing has changed when the second ones are made. -/
theorem exec_bind_decided (hx : x.exec w = decided first w a w)
    (hf : first = none → (f a).exec w = decided second w b w₂) :
    (x >>= f).exec w = decided (first.or second) w b w₂ := by
  rw [exec_bind, hx]
  cases first with
  | none => exact hf rfl
  | some e => rfl

/-- Nothing is refused any more once the world has changed. -/
theorem exec_bind_ok (hx : x.exec w = decided first w a w₁)
    (hf : first = none → (f a).exec w₁ = (.ok b, w₂)) :
    (x >>= f).exec w = decided first w b w₂ := by
  rw [exec_bind, hx]
  cases first with
  | none => exact hf rfl
  | some e => rfl

theorem exec_mapCause_decided {g : ε → ε'} (hx : x.exec w = decided first w a w₁) :
    (x.mapCause g).exec w = decided (first.map g) w a w₁ := by
  rw [exec_mapCause, hx]
  cases first <;> rfl

theorem exec_query_decided {g : World → Attempt ε α} (hg : g w = .decided first a) :
    (query g).exec w = decided first w a w := by
  rw [exec_query, hg, decided_self]

end Action

namespace World

variable {w : World} {i : Nat} {p p' : Pool} {α : Type} {a : α} {cause : Option PoolError}

theorem pool_eq {ε : Type} (hp : w.pool? i = some p) : (w.pool i : Attempt ε Pool) = .ok p := by
  unfold pool
  rw [hp]

/-- An action on one pool that fails leaves the world alone. -/
theorem exec_onPool (f : Pool → Attempt PoolError (α × Pool)) :
    (onPool i f).exec w =
      match w.pool? i with
      | none => (Attempt.halt .unknownPool, w)
      | some p =>
        match f p with
        | .ok (a, p') => (.ok a, w.setPool i p')
        | .error failure => (.error failure, w) := by
  unfold onPool Action.exec pool
  simp only [ExceptT.run_mk, StateT.run]
  cases w.pool? i with
  | none => rfl
  | some p =>
    simp only
    cases f p with
    | ok result => rfl
    | error failure => rfl

/-- An action on one pool is decided by the checks of the pool. -/
theorem exec_onPool_decided {f : Pool → Attempt PoolError (α × Pool)} (hp : w.pool? i = some p)
    (hf : f p = .decided cause (a, p')) :
    (onPool i f).exec w = Action.decided cause w a (w.setPool i p') := by
  rw [exec_onPool, hp]
  simp only [hf]
  cases cause <;> rfl

variable {h : Handle} {values : List Scalar}

theorem exec_allocate (hp : w.pool? i = some p) (wf : p.WellFormed) :
    (allocate i).exec w =
      Action.decided (p.viewed?.or p.full?) w p.nextHandle (w.setPool i p.taken) :=
  exec_onPool_decided hp (Pool.allocate_eq wf)

theorem exec_duplicate (hp : w.pool? i = some p) (wf : p.WellFormed) :
    (duplicate i h).exec w =
      Action.decided (p.viewed?.or ((p.flawed? h).or p.full?)) w p.nextHandle
        (w.setPool i (p.filled (p.block h.index.toNat))) :=
  exec_onPool_decided hp (Pool.duplicate_eq wf)

theorem exec_release (hp : w.pool? i = some p) (wf : p.WellFormed) :
    (release i h).exec w = Action.decided (p.flawed? h) w .invalid (w.without i h) := by
  rw [without_eq hp]
  exact exec_onPool_decided hp (Pool.release_eq wf)

theorem exec_setValues (hp : w.pool? i = some p) (wf : p.WellFormed)
    (hv : values.length = p.stride) :
    (setValues i h values).exec w =
      Action.decided ((p.flawed? h).or p.viewed?) w ()
        (w.setPool i (p.withBlock h.index.toNat values)) := by
  refine exec_onPool_decided hp ?_
  rw [Pool.setValues_eq wf hv]
  cases (p.flawed? h).or p.viewed? <;> rfl

theorem exec_overwrite (hp : w.pool? i = some p) (wf : p.WellFormed) :
    (overwrite i h values).exec w =
      Action.decided ((p.flawed? h).or p.viewed?) w (overlay values (p.block h.index.toNat))
        (w.setPool i (p.withBlock h.index.toNat (overlay values (p.block h.index.toNat)))) :=
  exec_onPool_decided hp (Pool.overwrite_eq wf)

theorem exec_values (hp : w.pool? i = some p) (wf : p.WellFormed) :
    (World.values i h).exec w =
      Action.decided ((p.flawed? h).or p.written?) w (p.block h.index.toNat) w := by
  refine Action.exec_query_decided ?_
  rw [pool_eq hp]
  exact Pool.values_eq wf

end World

end ParticleStore
