/-
ParticleStore.Proofs.Session.Parts — what the parts of a step come to.

A part of a step goes on with a result, or ends the step with an answer. `ComesTo` says what holds
of the session and the result in the first case, and of the session and the answer in the second.
It passes through the constructions of the monad. Where something is looked up and is not there,
or an action is refused, the step ends with the session as it was.
-/
import ParticleStore.Proofs.Particle.Trades
import ParticleStore.Proofs.Session.Exec

namespace ParticleStore

open ParticleStore.Action

variable {dim spacedim : Nat} {α β : Type} {s : Session dim spacedim} {key i : Nat}

namespace StepM

/-- A part of a step goes on as `post` says, or ends the step as `stopped` says. -/
def ComesTo (m : StepM dim spacedim α) (s : Session dim spacedim)
    (post : α → Session dim spacedim → Prop)
    (stopped : Answer dim spacedim → Session dim spacedim → Prop) : Prop :=
  match m.exec s with
  | (.ok a, s') => post a s'
  | (.error answer, s') => stopped answer s'

namespace ComesTo

variable {post : β → Session dim spacedim → Prop}
  {stopped : Answer dim spacedim → Session dim spacedim → Prop}

theorem of_exec {m : StepM dim spacedim β} {b : β} {s' : Session dim spacedim}
    (hexec : m.exec s = (.ok b, s')) (hpost : post b s') : m.ComesTo s post stopped := by
  unfold ComesTo
  rw [hexec]
  exact hpost

/-- A part that goes on in one way goes on with what comes next. -/
theorem bind_of_exec {m : StepM dim spacedim α} {f : α → StepM dim spacedim β} {a : α}
    {s' : Session dim spacedim} (hexec : m.exec s = (.ok a, s'))
    (hf : (f a).ComesTo s' post stopped) : (m >>= f).ComesTo s post stopped := by
  unfold ComesTo at hf ⊢
  rw [exec_bind, hexec]
  exact hf

theorem bind {m : StepM dim spacedim α} {f : α → StepM dim spacedim β}
    {between : α → Session dim spacedim → Prop} (hm : m.ComesTo s between stopped)
    (hf : ∀ a s', between a s' → (f a).ComesTo s' post stopped) :
    (m >>= f).ComesTo s post stopped := by
  unfold ComesTo at hm
  cases hexec : m.exec s with
  | mk result s' =>
    rw [hexec] at hm
    cases result with
    | ok a => exact bind_of_exec hexec (hf a s' hm)
    | error answer =>
      unfold ComesTo
      rw [exec_bind, hexec]
      exact hm

/-! ## Looking up -/

theorem particle_bind {f : Particle dim spacedim → StepM dim spacedim β}
    (hstop : stopped (.unknown "particle") s)
    (hf : ∀ p, s.particles.find? key = some p → (f p).ComesTo s post stopped) :
    (particle key >>= f).ComesTo s post stopped := by
  unfold ComesTo
  rw [exec_particle_bind]
  cases hp : s.particles.find? key with
  | none => exact hstop
  | some p => exact hf p hp

theorem particles_bind {keys : List Nat} {f : List (Particle dim spacedim) → StepM dim spacedim β}
    (hstop : stopped (.unknown "particle") s)
    (hf : ∀ ps, keys.mapM s.particles.find? = some ps → (f ps).ComesTo s post stopped) :
    (particles keys >>= f).ComesTo s post stopped := by
  unfold ComesTo
  rw [exec_bind, exec_particles]
  cases hps : keys.mapM s.particles.find? with
  | none => exact hstop
  | some ps => exact hf ps hps

theorem handle_bind {name : HandleName} {f : Handle → StepM dim spacedim β}
    (hstop : stopped (.unknown name.what) s)
    (hf : ∀ h, s.named? name = some h → (f h).ComesTo s post stopped) :
    (handle name >>= f).ComesTo s post stopped := by
  unfold ComesTo
  rw [exec_handle_bind]
  cases hname : s.named? name with
  | none => exact hstop
  | some h => exact hf h hname

theorem keptHandle_bind {f : Handle → StepM dim spacedim β} (hstop : stopped (.unknown "handle") s)
    (hf : ∀ h, s.handles.find? key = some h → (f h).ComesTo s post stopped) :
    (keptHandle key >>= f).ComesTo s post stopped := by
  unfold ComesTo
  rw [exec_keptHandle_bind]
  cases hh : s.handles.find? key with
  | none => exact hstop
  | some h => exact hf h hh

theorem pool_bind {f : Pool → StepM dim spacedim β} (hstop : stopped (.unknown "pool") s)
    (hf : ∀ pl, s.world.pool? i = some pl → (f pl).ComesTo s post stopped) :
    (pool i >>= f).ComesTo s post stopped := by
  unfold ComesTo
  rw [exec_pool_bind]
  cases hp : s.world.pool? i with
  | none => exact hstop
  | some pl => exact hf pl hp

theorem poolPosition_bind {f : Nat → StepM dim spacedim β} (hstop : stopped (.unknown "pool") s)
    (hf : ∀ pl, s.world.pool? i = some pl → (f i).ComesTo s post stopped) :
    (poolPosition i >>= f).ComesTo s post stopped := by
  unfold ComesTo
  rw [exec_poolPosition_bind]
  cases hp : s.world.pool? i with
  | none => exact hstop
  | some pl => exact hf pl hp

theorem positions_bind {from? : Option Nat} {f : Option Nat → StepM dim spacedim β}
    (hstop : stopped (.unknown "pool") s)
    (hf : (∀ i, from? = some i → ∃ pl, s.world.pool? i = some pl) →
      (f from?).ComesTo s post stopped) :
    (from?.mapM poolPosition >>= f).ComesTo s post stopped := by
  unfold ComesTo
  rw [exec_positions_bind]
  by_cases hpool : ∀ i, from? = some i → (s.world.pool? i).isSome
  · rw [if_pos hpool]
    exact hf fun i hi => Option.isSome_iff_exists.mp (hpool i hi)
  · rw [if_neg hpool]
    exact hstop

theorem buffer_bind {f : Bytes → StepM dim spacedim β}
    (hf : (f (s.bytes key)).ComesTo s post stopped) : (buffer key >>= f).ComesTo s post stopped := hf

/-- Looking through a view changes nothing. -/
theorem viewed_bind {f : List Scalar → StepM dim spacedim β}
    (hstop : ∀ answer, (viewed key).exec s = (.error answer, s) → stopped answer s)
    (hf : ∀ values, (f values).ComesTo s post stopped) :
    (viewed key >>= f).ComesTo s post stopped := by
  obtain ⟨result, hexec⟩ := exec_viewed (s := s) key
  cases result with
  | ok values => exact bind_of_exec hexec (hf values)
  | error answer =>
    unfold ComesTo
    rw [exec_bind, hexec]
    exact hstop answer hexec

/-! ## Acting -/

/-- An action that settles is refused for a cause or has a result, and the step goes on. -/
theorem act_bind {ε : Type} {action : Action ε α} {f : Attempt ε α → StepM dim spacedim β}
    {between : α → World → Prop} (settles : action.Settles s.world between)
    (hrefused : ∀ cause, (f (Attempt.refuse cause)).ComesTo s post stopped)
    (hf : ∀ a w', between a w' → (f (.ok a)).ComesTo { s with world := w' } post stopped) :
    (act action >>= f).ComesTo s post stopped := by
  obtain ⟨cause, a, w', he, hpost⟩ := settles
  unfold ComesTo
  rw [exec_act_bind, he]
  cases cause with
  | some e => exact hrefused e
  | none => exact hf a w' (hpost rfl)

/-- An action that succeeds goes on. -/
theorem actOnParticle_bind_of_exec {action : Action ParticleError α}
    {f : α → StepM dim spacedim β} {a : α} {w' : World} (he : action.exec s.world = (.ok a, w'))
    (hf : (f a).ComesTo { s with world := w' } post stopped) :
    (actOnParticle action >>= f).ComesTo s post stopped := by
  unfold ComesTo
  rw [exec_actOnParticle_bind, he]
  exact hf

/-- An action that settles is refused for a cause, or goes on. -/
theorem actOnParticle_bind {action : Action ParticleError α} {f : α → StepM dim spacedim β}
    {between : α → World → Prop} (settles : action.Settles s.world between)
    (hstop : ∀ cause, stopped (.failed (.refused cause)) s)
    (hf : ∀ a w', between a w' → (f a).ComesTo { s with world := w' } post stopped) :
    (actOnParticle action >>= f).ComesTo s post stopped := by
  obtain ⟨cause, a, w', he, hpost⟩ := settles
  unfold ComesTo
  rw [exec_actOnParticle_bind, he]
  cases cause with
  | some e => exact hstop e
  | none => exact hf a w' (hpost rfl)

/-- A pool's operation is decided by its checks, or goes on. -/
theorem actOnPool_bind {f : Pool → Attempt PoolError (α × Pool)}
    {g : α → StepM dim spacedim β} {cause : Option PoolError} {a : α} {pl pl' : Pool}
    (hp : s.world.pool? i = some pl) (hf : f pl = .decided cause (a, pl'))
    (hstop : ∀ cause, stopped (.poolFailed (.refused cause)) s)
    (hg : cause = none →
      (g a).ComesTo { s with world := s.world.setPool i pl' } post stopped) :
    (actOnPool i f >>= g).ComesTo s post stopped := by
  unfold ComesTo
  rw [exec_actOnPool_bind, World.exec_onPool_decided hp hf]
  cases cause with
  | some e => exact hstop e
  | none => exact hg rfl

end ComesTo

end StepM

end ParticleStore
