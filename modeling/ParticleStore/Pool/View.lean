/-
ParticleStore.Pool.View — reading and writing the values of slots.

`values` and `setValues` are complete accesses; `openView` and `closeView` hold a
window open in between. Read access needs that no write view is open, write access
that no view is open at all, and both test the handle first. A view keeps its
window even if the slot is released meanwhile.
-/
import ParticleStore.Pool.Basic

namespace ParticleStore

/-- A window on the values of the slot at `position`. -/
structure View where
  position : Nat
  /-- Values may be written through it, and no other view is open beside it. -/
  writable : Bool
deriving DecidableEq, Inhabited

/-- `new` over the front of `old`, as much of it as fits. -/
def overlay (new old : List Scalar) : List Scalar := new.take old.length ++ old.drop new.length

theorem length_overlay (new old : List Scalar) : (overlay new old).length = old.length := by
  simp only [overlay, List.length_append, List.length_take, List.length_drop]
  omega

namespace Pool

/-! ## Access through a handle -/

/-- The position of the slot that a handle names, if its values may be read. -/
def readable (p : Pool) (h : Handle) : Attempt PoolError Nat := do
  let i ← p.demand h
  p.demandUnwritten
  return i

/-- The position of the slot that a handle names, if its values may be written. -/
def writable (p : Pool) (h : Handle) : Attempt PoolError Nat := do
  let i ← p.demand h
  p.demandUnviewed
  return i

/-- The values of the slot that a handle names. -/
def values (p : Pool) (h : Handle) : Attempt PoolError (List Scalar) := do
  let i ← p.readable h
  p.slotValues i

/-- Give the slot that a handle names these values, as many as the stride. -/
def setValues (p : Pool) (h : Handle) (new : List Scalar) : Attempt PoolError Pool := do
  let i ← p.writable h
  p.setSlotValues i new

/-- Write over the front of the values at a position: the values afterwards. -/
def overwriteAt (p : Pool) (position : Nat) (new : List Scalar) :
    Attempt PoolError (List Scalar × Pool) := do
  let old ← p.slotValues position
  let p ← p.setSlotValues position (overlay new old)
  return (overlay new old, p)

/-- Write over the front of the values of the slot that a handle names: the values
afterwards. -/
def overwrite (p : Pool) (h : Handle) (new : List Scalar) :
    Attempt PoolError (List Scalar × Pool) := do
  let i ← p.writable h
  p.overwriteAt i new

/-! ## Views held open -/

/-- Open a view of the slot that a handle names. -/
def openView (p : Pool) (h : Handle) (writable : Bool) : Attempt PoolError (View × Pool) := do
  if writable then
    let i ← p.writable h
    return (⟨i, true⟩, { p with writers := p.writers + 1 })
  else
    let i ← p.readable h
    return (⟨i, false⟩, { p with readers := p.readers + 1 })

/-- Close an open view. -/
def closeView (p : Pool) (v : View) : Pool :=
  if v.writable then { p with writers := p.writers - 1 } else { p with readers := p.readers - 1 }

end Pool

end ParticleStore
