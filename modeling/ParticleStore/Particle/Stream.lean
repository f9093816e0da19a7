/-
ParticleStore.Particle.Stream — byte streams that give and take piece by piece.

A stream passes at most a chunk of bytes at a time, so a whole run of bytes takes as
many passes as it needs. The size of the chunk is without consequence unless it is
zero: then no byte ever passes. A reader that ends too early has given all it had;
a writer that is full has taken all that it had room for.
-/
import ParticleStore.Particle.Error

namespace ParticleStore.Stream

/-- Whether bytes pass at all when at most a chunk passes at a time. -/
def passes (chunk : Option Nat) : Bool := chunk.all fun size => 0 < size

/-- Exactly `n` bytes from a source, and what the source still has. -/
def receive (chunk : Option Nat) (n : Nat) (source : Bytes) : Except StreamError Bytes × Bytes :=
  if n = 0 then (.ok [], source)
  else if !passes chunk then (.error .endedEarly, source)
  else if n ≤ source.length then (.ok (source.take n), source.drop n)
  else (.error .endedEarly, [])

/-- All of `data` to a sink with room for so many bytes, and the bytes that it took. -/
def deliver (chunk room : Option Nat) (data : Bytes) : Except StreamError Unit × Bytes :=
  let taken := if passes chunk then data.take (room.getD data.length) else []
  (if taken.length = data.length then .ok () else .error .full, taken)

end ParticleStore.Stream
