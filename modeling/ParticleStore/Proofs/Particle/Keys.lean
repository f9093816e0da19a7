/-
ParticleStore.Proofs.Particle.Keys — operations that leave a particle where it is.

An index orders particles by their coordinates and does not look at them again. Whatever
an operation does to a particle's slot, the particle it gives back has the coordinates of
the one that it was given, or of the one that it copies (`SameKeys`). This is so in every
world, however the slots stand, and so it is stated of the results alone (`Action.Yields`).
-/
import ParticleStore.Particle.Copy
import ParticleStore.Proofs.Particle.RoundTrip

namespace ParticleStore

open ParticleStore.Action

namespace Action

variable {ε ε' α β : Type} {action : Action ε α} {post : β → Prop}

/-- Every result that the action can have is as `post` says. -/
def Yields (action : Action ε α) (post : α → Prop) : Prop :=
  ∀ w a w', action.exec w = (.ok a, w') → post a

namespace Yields

theorem of_pure {b : β} (hpost : post b) : (pure b : Action ε β).Yields post := by
  intro w a w' hexec
  cases hexec
  exact hpost

theorem of_true (action : Action ε β) : action.Yields fun _ => True := fun _ _ _ _ => trivial

theorem of_refuse (cause : ε) : (refuse cause : Action ε β).Yields post := by
  intro w a w' hexec
  cases hexec

/-- Whatever comes first, what comes next has the result. -/
theorem bind {f : α → Action ε β} (hf : ∀ a, (f a).Yields post) : (action >>= f).Yields post := by
  intro w b w' hexec
  rw [exec_bind] at hexec
  split at hexec
  · exact hf _ _ _ _ hexec
  · cases hexec

end Yields

end Action

namespace Particle

variable {dim spacedim : Nat} {p q source : Particle dim spacedim} {ε : Type}

/-- The particle `q` has the coordinates of `p`. -/
structure SameKeys (p q : Particle dim spacedim) : Prop where
  location_eq : q.location = p.location
  reference_eq : q.reference = p.reference

theorem SameKeys.refl (p : Particle dim spacedim) : p.SameKeys p := ⟨rfl, rfl⟩

theorem yields_releaseSlot (p : Particle dim spacedim) :
    (p.releaseSlot : Action ε _).Yields p.SameKeys := by
  unfold releaseSlot
  split
  · exact .of_pure (.refl p)
  · refine .bind fun released => ?_
    cases released with
    | ok left => exact .of_pure ⟨rfl, rfl⟩
    | error cause => exact .bind fun _ => .of_pure ⟨rfl, rfl⟩

theorem yields_setValues (p : Particle dim spacedim) (values : List Scalar) :
    (p.setValues values).Yields p.SameKeys := by
  unfold setValues
  split
  · exact .of_refuse _
  · refine .bind fun stride => ?_
    split
    · exact .of_refuse _
    · split
      · exact .bind fun _ => .of_pure (.refl p)
      · exact .bind fun _ => .of_pure ⟨rfl, rfl⟩

theorem yields_moveTo (p : Particle dim spacedim) (target : Nat) :
    (p.moveTo target).Yields p.SameKeys := by
  unfold moveTo
  refine .bind fun targetPool => ?_
  split
  · exact .of_pure ⟨rfl, rfl⟩
  · refine .bind fun sourcePool => ?_
    split
    · exact .of_refuse _
    · refine .bind fun values => .bind fun moved => .bind fun released => ?_
      cases released with
      | ok _ => exact .bind fun _ => .of_pure ⟨rfl, rfl⟩
      | error cause => exact .bind fun _ => .of_refuse _

theorem yields_copy (p : Particle dim spacedim) : p.copy.Yields p.SameKeys := by
  unfold copy
  split
  · exact .of_pure ⟨rfl, rfl⟩
  · exact .bind fun _ => .of_pure ⟨rfl, rfl⟩

/-- A particle that is moved out of its place and the one that stays behind are in one place. -/
theorem sameKeys_take (p : Particle dim spacedim) :
    p.SameKeys p.take.1 ∧ p.SameKeys p.take.2 := ⟨⟨rfl, rfl⟩, ⟨rfl, rfl⟩⟩

/-! ## Records -/

variable {pool : Option Nat} {r : Record dim spacedim} {input rest bytes : Bytes} {w w' : World}

theorem yields_ofRecord (pool : Option Nat) (r : Record dim spacedim) :
    (ofRecord pool r).Yields fun q => q.location = r.location ∧ q.reference = r.reference := by
  unfold ofRecord
  simp only
  split
  · exact .of_pure ⟨rfl, rfl⟩
  · exact .bind fun _ => .bind fun _ => .of_pure ⟨rfl, rfl⟩

/-- Particles with one record have the same coordinates. -/
theorem sameKeys_of_toRecord (hp : p.toRecord w = .ok r) (hq : q.toRecord w' = .ok r) :
    p.SameKeys q := by
  obtain ⟨hlocation, hreference, -, -⟩ := toRecord_eq_ok_iff.mp hp
  obtain ⟨hlocation', hreference', -, -⟩ := toRecord_eq_ok_iff.mp hq
  exact ⟨hlocation'.trans hlocation.symm, hreference'.trans hreference.symm⟩

/-- A particle made of the record of another one is where that one is. -/
theorem yields_ofBytes (henc : p.encode w = .ok bytes) (pool : Option Nat) (rest : Bytes) :
    (ofBytes pool (bytes ++ rest)).Yields fun result => p.SameKeys result.1 := by
  obtain ⟨r, hrecord, hdecode⟩ := exists_record_of_encode henc
  obtain ⟨hlocation, hreference, -, -⟩ := toRecord_eq_ok_iff.mp hrecord
  intro w₁ result w₂ hexec
  rw [exec_ofBytes_ok (hdecode rest), exec_map] at hexec
  split at hexec
  · rename_i q _ hmade
    cases hexec
    obtain ⟨hlocation', hreference'⟩ := yields_ofRecord pool r _ _ _ hmade
    exact ⟨hlocation'.trans hlocation.symm, hreference'.trans hreference.symm⟩
  · cases hexec

end Particle

end ParticleStore
