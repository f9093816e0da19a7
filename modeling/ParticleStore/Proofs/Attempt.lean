/-
ParticleStore.Proofs.Attempt — operations that a list of checks decides.

An operation on pools and particles checks, in a fixed order, whether there is a
cause to refuse it, and succeeds if there is none. `decided cause a` is its
outcome: `cause` is the first cause found, and `a` the result where there is none.
Written with `Option.or`, the order of the checks stands in the statement.
-/
import ParticleStore.Fault
import ParticleStore.Particle.Error

namespace ParticleStore

/-- Different property counts. -/
def mismatch? (recorded expected : Nat) : Option ParticleError :=
  if recorded ≠ expected then some (.countMismatch recorded expected) else none

theorem mismatch?_eq_none_iff {recorded expected : Nat} :
    mismatch? recorded expected = none ↔ recorded = expected := by
  unfold mismatch?
  split <;> simp_all

namespace Attempt

variable {ε ε' α β : Type}

/-- Refused for the cause there is, or else successful. -/
def decided (cause : Option ε) (a : α) : Attempt ε α :=
  match cause with
  | some e => refuse e
  | none => .ok a

@[simp] theorem decided_none (a : α) : decided (none : Option ε) a = .ok a := rfl
@[simp] theorem decided_some (e : ε) (a : α) : decided (some e) a = refuse e := rfl

theorem decided_eq_ok_iff {cause : Option ε} {a b : α} :
    decided cause a = .ok b ↔ cause = none ∧ a = b := by
  cases cause <;> simp [refuse]

/-- The results matter only where there is no cause. -/
theorem decided_congr {cause : Option ε} {a b : α} (h : cause = none → a = b) :
    decided cause a = decided cause b := by
  cases cause with
  | none => rw [h rfl]
  | some e => rfl

theorem mapCause_decided (f : ε → ε') (cause : Option ε) (a : α) :
    mapCause f (decided cause a) = decided (cause.map f) a := by
  cases cause <;> rfl

/-- One check after the other. -/
theorem decided_bind {first second : Option ε} {a : α} {b : β} {f : α → Attempt ε β}
    (h : first = none → f a = decided second b) :
    (decided first a >>= f) = decided (first.or second) b := by
  cases first with
  | none => exact h rfl
  | some e => rfl

/-- Nothing is refused once the checks are passed. -/
theorem decided_bind_ok {cause : Option ε} {a : α} {b : β} {f : α → Attempt ε β}
    (h : cause = none → f a = .ok b) : (decided cause a >>= f) = decided cause b := by
  cases cause with
  | none => exact h rfl
  | some e => rfl

end Attempt

end ParticleStore
