/-
ParticleStore.Batch — many particles in one buffer.

A sender writes one record per particle and then drops its particles; a receiver
makes them again, in the same order, with slots of a pool of its own. Writing gives
all records or none. Reading stops at the first record that cannot be placed; the
particles made until then are dropped, and the bytes left start with that record.
-/
import ParticleStore.Particle.Transfer
import ParticleStore.Record.Consumption

namespace ParticleStore.Batch

variable {dim spacedim : Nat}

/-- The bytes that the records of the particles take. -/
def byteWidth (w : World) (particles : List (Particle dim spacedim)) : Nat :=
  particles.foldr (fun p total => p.byteWidth w + total) 0

/-- The records of the particles, in order. -/
def encode (w : World) (particles : List (Particle dim spacedim)) :
    Attempt ParticleError Bytes := do
  match particles with
  | [] => return []
  | p :: rest =>
    let first ← p.encode w
    return first ++ (← encode w rest)

/-- The outcome of reading a buffer. -/
structure Reading (dim spacedim : Nat) where
  /-- The particles read, or why there are none. -/
  outcome : Attempt ParticleError (List (Particle dim spacedim))
  /-- The bytes from the record on that was not placed; nothing if all were. -/
  rest : Bytes

/-- Drop the particles made so far, because the next record was not placed. -/
def giveUp (made : List (Particle dim spacedim)) (failure : Failure ParticleError) (rest : Bytes) :
    StateM World (Reading dim spacedim) := do
  match ← (Particle.dropAll made : Action ParticleError Unit).run with
  | .ok () => return ⟨.error failure, rest⟩
  | .error fault => return ⟨.error fault, rest⟩

/-- Make particles from the records of a buffer, after those already made. -/
def decodeOnto (pool : Option Nat) (made : List (Particle dim spacedim)) (input : Bytes) :
    StateM World (Reading dim spacedim) := do
  if input.isEmpty then
    match ← (Action.note (.batchDecoded made.length) : Action ParticleError Unit).run with
    | .ok () => return ⟨.ok made, []⟩
    | .error failure => return ⟨.error failure, []⟩
  else
    match h : (Record.decoder dim spacedim).run input with
    | .error cause => giveUp made (.refused (.malformed cause)) input
    | .ok (r, rest) =>
      have : rest.length < input.length := Record.length_lt_of_decode h
      match ← (Particle.ofRecord pool r).run with
      | .error failure => giveUp made failure input
      | .ok p => decodeOnto pool (made ++ [p]) rest
termination_by input.length

/-- Make particles from all records of a buffer, in order. -/
def decode (pool : Option Nat) (input : Bytes) : StateM World (Reading dim spacedim) :=
  decodeOnto pool [] input

end ParticleStore.Batch
