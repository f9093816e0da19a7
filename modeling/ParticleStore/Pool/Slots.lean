/-
ParticleStore.Pool.Slots — taking, copying and releasing slots.

Taking a slot writes scalars, so it is refused while any view is open. A released
slot comes before a new one, and the slot released last comes first; either way
the new owner finds zeros. Releasing touches no scalars, so no view ever stands in
its way. An operation that fails gives no pool: the pool it was given is still the
state.
-/
import ParticleStore.Pool.Basic

namespace ParticleStore.Pool

/-! ## Taking -/

/-- The pool with one more slot in its table, not yet live, and the slot's index. -/
def extend (p : Pool) : UInt32 × Pool :=
  (UInt32.ofNat p.slots.length,
    { p with
      slots := p.slots ++ [⟨0, false⟩]
      scalars := p.scalars ++ List.replicate p.stride .zero })

/-- The next slot to use, cleared: the one released last, or else a new one. -/
def nextSlot (p : Pool) : Attempt PoolError (UInt32 × Pool) :=
  match p.free with
  | [] => .ok p.extend
  | index :: rest => do
    let p ← p.setSlotValues index.toNat (List.replicate p.stride .zero)
    return (index, { p with free := rest })

/-- Make the slot at an index live, and its handle. -/
def enliven (p : Pool) (index : UInt32) : Attempt PoolError (Handle × Pool) :=
  match p.slots[index.toNat]? with
  | none => Attempt.halt (.index p.slots.length index.toNat)
  | some slot => do
    Attempt.require (slot.live = false) .liveSlotReused
    return (⟨p.id, index, slot.generation⟩,
      { p with
        slots := p.slots.set index.toNat { slot with live := true }
        live := p.live + 1 })

/-- Take a slot that holds zeros, if one more may be live. -/
def take (p : Pool) : Attempt PoolError (Handle × Pool) := do
  if p.config.slotLimit ≤ p.live then
    Attempt.refuse (.outOfResources (p.live + 1) p.config.slotLimit)
  else
    let (index, p) ← p.nextSlot
    p.enliven index

/-- Allocate a slot that holds zeros. -/
def allocate (p : Pool) : Attempt PoolError (Handle × Pool) := do
  p.demandUnviewed
  p.take

/-- Allocate a slot that holds the values of another one. -/
def duplicate (p : Pool) (source : Handle) : Attempt PoolError (Handle × Pool) := do
  p.demandUnviewed
  let i ← p.demand source
  let (copy, p) ← p.take
  let values ← p.slotValues i
  let p ← p.setSlotValues copy.index.toNat values
  return (copy, p)

/-! ## Releasing -/

/-- Release the slot that a handle names; the handle's place then holds the invalid
handle. -/
def release (p : Pool) (h : Handle) : Attempt PoolError (Handle × Pool) := do
  let i ← p.demand h
  match p.slots[i]? with
  | none => Attempt.halt (.index p.slots.length i)
  | some slot =>
    Attempt.require (0 < p.live) .noLiveSlot
    return (.invalid,
      { p with
        slots := p.slots.set i ⟨slot.generation + 1, false⟩
        free := h.index :: p.free
        live := p.live - 1 })

end ParticleStore.Pool
