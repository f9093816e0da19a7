/-
ParticleStore.Particle.Id — the numbers of particles.

An id is a 64-bit number, ordered as a number. That no two particles share one is
the care of whoever gives them out.
-/
import ParticleStore.Report

namespace ParticleStore

/-- The number of a particle. -/
structure ParticleId where
  number : UInt64
deriving DecidableEq, Inhabited

namespace ParticleId

/-- Bytes that an id takes in a record. -/
def byteWidth : Nat := 8

/-- The id for a reader: its number. -/
def text (id : ParticleId) : String := toString id.number.toNat

/-- The id in a report. -/
def report (id : ParticleId) : String := Report.applied "ParticleId" [id.text]

/-- Ids are ordered by their numbers. -/
def order (a b : ParticleId) : Ordering := compare a.number b.number

/-- The larger of two ids. -/
def larger (a b : ParticleId) : ParticleId := if a.number ≤ b.number then b else a

end ParticleId

end ParticleStore
