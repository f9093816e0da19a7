/-
ParticleStore.Proofs.Session.Canonical — what is read is written back.

A record has one form in bytes, so bytes that are accepted as a record are the bytes in which
that record is written. A particle that has taken them over, because it was made of them or
brought up to date by them, shows that record and nothing of what it showed before. So it is
written as the same bytes again, whatever they are: no scalar is looked at on the way, and a
NaN keeps its payload and a zero its sign.

What is written is not what was read, though. The count comes from the slot that the particle
holds, and the values from its pool (`toRecord_of_update`, `ReadAs.record`).
-/
import ParticleStore.Proofs.Particle.Writing
import ParticleStore.Proofs.Reading
import ParticleStore.Proofs.Session.Writers

namespace ParticleStore

open ParticleStore.Action World

variable {dim spacedim : Nat} {w w' : World} {d rest behind : Bytes} {p q : Particle dim spacedim}
  {r : Record dim spacedim}

namespace Particle

/-- A particle can be brought up to date by a record with as many values, if these can be written
to its slot, and only then. -/
theorem writable_of_update (wf : w.WellFormed) (placed : p.Placed w)
    (hdecode : (Record.decoder dim spacedim).run d = .ok (r, behind))
    (hexec : (p.update d).exec w = (.ok (q, rest), w')) :
    p.Writable w ∧ r.values.length = p.propertyCount w := by
  cases hs : p.slot? with
  | none =>
    rw [exec_update_of_none hdecode hs, decided_eq_ok_iff, mismatch?_eq_none_iff] at hexec
    rw [propertyCount_of_none hs]
    exact ⟨by simp [Writable, slots_of_none hs], hexec.1⟩
  | some held =>
    obtain ⟨i, h⟩ := held
    obtain ⟨pl, hp, -⟩ := placed.slot hs
    rw [exec_update_of_slot hdecode hs hp (wf.pool i pl hp), decided_eq_ok_iff,
      Option.or_eq_none_iff, mismatch?_eq_none_iff, Option.map_eq_none_iff, Option.or_eq_none_iff,
      Pool.flawed?_eq_none_iff_contents, Pool.viewed?_eq_none_iff] at hexec
    obtain ⟨⟨hcount, hgood, hview⟩, -⟩ := hexec
    rw [propertyCount_of_slot hs hp]
    refine ⟨fun slot hslot => ?_, hcount⟩
    obtain rfl : slot = (i, h) := by simpa [slots_of_slot hs] using hslot
    rw [contents_of_pool hp]
    refine ⟨hgood, fun pl' hp' => ?_⟩
    obtain rfl : pl = pl' := Option.some.inj (hp.symm.trans hp')
    exact hview

/-- A particle that was brought up to date shows the record that was read. -/
theorem toRecord_of_update (wf : w.WellFormed) (placed : p.Placed w)
    (hexec : (p.update d).exec w = (.ok (q, rest), w')) :
    ∃ r, (Record.decoder dim spacedim).run d = .ok (r, rest) ∧ q.toRecord w' = .ok r := by
  cases hdecode : (Record.decoder dim spacedim).run d with
  | error cause =>
    rw [exec_update_error hdecode] at hexec
    cases hexec
  | ok result =>
    obtain ⟨r, behind⟩ := result
    obtain ⟨writable, hcount⟩ := writable_of_update wf placed hdecode hexec
    obtain ⟨w₁, hexec', -, hrecord⟩ := exec_update_of_writable wf hdecode writable hcount
    rw [hexec] at hexec'
    cases hexec'
    exact ⟨r, rfl, hrecord⟩

/-- A particle that shows the record at the front of some bytes is written as that front. -/
theorem encode_of_decoded (hdecode : (Record.decoder dim spacedim).run d = .ok (r, rest))
    (hrecord : q.toRecord w = .ok r) :
    d.take (d.length - rest.length) ++ rest = d ∧
      q.encode w = .ok (d.take (d.length - rest.length)) := by
  obtain ⟨bytes, henc, rfl⟩ := Record.run_decoder_eq_ok_iff.mp hdecode
  rw [List.length_append, Nat.add_sub_cancel, List.take_left]
  exact ⟨rfl, encode_eq_ok_iff.mpr ⟨r, hrecord, henc⟩⟩

end Particle

namespace Session

open Particle

variable {s : Session dim spacedim}

/-- In a session a particle takes over the record at the front of the bytes `d`: it is made of
them, for any pool there is or for none, or it was there and is brought up to date. The particle
is `q` then, the bytes `rest` are left, and the world is `w`. -/
inductive TakesOver (s : Session dim spacedim) (d : Bytes) :
    Particle dim spacedim → Bytes → World → Prop
  | made {pool : Option Nat} {q : Particle dim spacedim} {rest : Bytes} {w : World}
      (hpool : ∀ i, pool = some i → (s.world.pool? i).isSome)
      (hexec : (ofBytes pool d).exec s.world = (.ok (q, rest), w)) : TakesOver s d q rest w
  | updated {key : Nat} {p q : Particle dim spacedim} {rest : Bytes} {w : World}
      (hp : s.particles.find? key = some p)
      (hexec : (p.update d).exec s.world = (.ok (q, rest), w)) : TakesOver s d q rest w

/-- A particle that takes over a record shows it. -/
theorem TakesOver.toRecord {sole : Prop} (sound : s.Sound sole) (takes : TakesOver s d q rest w) :
    ∃ r, (Record.decoder dim spacedim).run d = .ok (r, rest) ∧ q.toRecord w = .ok r := by
  cases takes with
  | made hpool hexec =>
    obtain ⟨-, r, hdecode, read⟩ := Batch.readAs_of_exec (sound.supplied hpool) hexec
    exact ⟨r, hdecode, read.record⟩
  | updated hp hexec => exact toRecord_of_update sound.wellFormed (sound.placed hp) hexec

/-- The particle `q` is written in the world `w` as the bytes that were taken from the front of
`d`, which left the bytes `rest`. -/
structure WrittenBack (w : World) (q : Particle dim spacedim) (d rest : Bytes) : Prop where
  split : d.take (d.length - rest.length) ++ rest = d
  encode_eq : q.encode w = .ok (d.take (d.length - rest.length))
  /-- Whatever a buffer holds, just these bytes are appended to it, and nothing else is changed. -/
  appended : ∀ (s : Session dim spacedim) (key b : Nat), s.world = w →
    s.particles.find? key = some q →
      let written := s.bytes b ++ d.take (d.length - rest.length)
      s.perform (.encode key b) = (.transferred (.ok ()) written.length,
        { s with buffers := s.buffers.insert b written })

/-- **What is read is written back.** After any run of steps a particle that takes over a record,
from any bytes, is written as the bytes that it took. -/
theorem writtenBack_run (steps : List (Step dim spacedim)) (d rest : Bytes)
    (q : Particle dim spacedim) (w : World)
    (takes : TakesOver (run ({} : Session dim spacedim) steps).2 d q rest w) :
    WrittenBack w q d rest := by
  obtain ⟨r, hdecode, hrecord⟩ := takes.toRecord (sound_reached steps)
  obtain ⟨hsplit, henc⟩ := encode_of_decoded hdecode hrecord
  refine ⟨hsplit, henc, fun s key b hworld hq => ?_⟩
  subst hworld
  rw [StepM.perform_encode, hq]
  simp only [henc]

/-- A signalling NaN as a coordinate and a negative zero as a value come back as they were. -/
theorem writtenBack_run_of_nan :
    let steps : List (Step 0 1) := [.makePool { stride := 1 }]
    let record : Bytes := [1, 0, 0, 0, 0, 0, 0xF0, 0x7F] ++ List.replicate 8 3 ++ [1, 0, 0, 0] ++
      [0, 0, 0, 0, 0, 0, 0, 0x80]
    ∃ q w, TakesOver (run {} steps).2 (record ++ [9]) q [9] w ∧
      WrittenBack w q (record ++ [9]) [9] := by
  intro steps record
  let q : Particle 0 1 :=
    ⟨⟨[⟨0x7FF0000000000001⟩], rfl⟩, ⟨[], rfl⟩, ⟨0x0303030303030303⟩, some 0, ⟨⟨1⟩, 0, 0⟩⟩
  have hpool : ∀ i, some 0 = some i → ((run {} steps).2.world.pool? i).isSome := by
    intro i hi
    cases hi
    rfl
  have hresult : ((ofBytes (some 0) (record ++ [9])).exec (run {} steps).2.world).1 =
      .ok (q, [9]) := by
    decide +kernel
  revert hresult
  rcases hexec : (ofBytes (some 0) (record ++ [9])).exec (run {} steps).2.world with ⟨result, w⟩
  rintro rfl
  have takes := TakesOver.made hpool hexec
  exact ⟨q, w, takes, writtenBack_run steps _ [9] q w takes⟩

end Session

end ParticleStore
