/-
ParticleStore.Proofs.Framing — where one record ends and the next one begins.

No length and no mark stands between the records of a buffer. A record tells its own
length, by a count in its middle, and it is read in one way only, whatever follows it
(`Record.run_decoder_eq_ok_iff`). So of two records one is never the front of the other
(`eq_of_append_eq`), a part of a record is never a record, and a buffer was written by
particles that show the same, one after the other, whichever they are.
-/
import ParticleStore.Proofs.Migration
import ParticleStore.Proofs.Reading
import ParticleStore.Proofs.Session.Sound

namespace ParticleStore

open ParticleStore.Action

variable {dim spacedim : Nat} {w w' : World} {bytes bytes' rest rest' front : Bytes}

namespace Record

variable {r r' : Record dim spacedim}

/-- Two records that stand at the front of the same bytes are one record. -/
theorem eq_of_append_eq (henc : r.encode = .ok bytes) (henc' : r'.encode = .ok bytes')
    (heq : bytes ++ rest = bytes' ++ rest') : r = r' ∧ bytes = bytes' ∧ rest = rest' := by
  have hrun : (decoder dim spacedim).run (bytes ++ rest) = .ok (r, rest) :=
    run_decoder_eq_ok_iff.mpr ⟨bytes, henc, rfl⟩
  have hrun' : (decoder dim spacedim).run (bytes ++ rest) = .ok (r', rest') :=
    run_decoder_eq_ok_iff.mpr ⟨bytes', henc', heq⟩
  rw [hrun] at hrun'
  cases hrun'
  exact ⟨rfl, List.append_cancel_right heq, rfl⟩

/-- No record is a proper front of another one. -/
theorem eq_of_prefix (henc : r.encode = .ok bytes) (henc' : r'.encode = .ok bytes')
    (hfront : bytes <+: bytes') : bytes = bytes' := by
  obtain ⟨more, rfl⟩ := hfront
  exact (eq_of_append_eq henc henc' (List.append_nil _).symm).2.1

/-- A proper front of a record is not a record, nor has it one at its front. -/
theorem run_decoder_of_prefix (henc : r.encode = .ok bytes) (hfront : front <+: bytes)
    (hne : front ≠ bytes) : ∃ cause, (decoder dim spacedim).run front = .error cause := by
  cases hrun : (decoder dim spacedim).run front with
  | error cause => exact ⟨cause, rfl⟩
  | ok result =>
    obtain ⟨shorter, henc', rfl⟩ := run_decoder_eq_ok_iff.mp hrun
    obtain rfl := eq_of_prefix henc' henc ((List.prefix_append _ _).trans hfront)
    exact absurd (hfront.eq_of_length_le (List.prefix_append _ _).length_le) hne

theorem encode_ne_nil (henc : r.encode = .ok bytes) : bytes ≠ [] := by
  rintro rfl
  have hlength := length_encode henc
  have hwidth := Batch.twelve_le_byteWidth dim spacedim
  rw [byteWidth, List.length_nil] at hlength
  omega

end Record

namespace Particle

variable {p : Particle dim spacedim}

/-- A part of a particle's record is refused before any pool is asked. -/
theorem exec_ofBytes_of_prefix (henc : p.encode w = .ok bytes) (hfront : front <+: bytes)
    (hne : front ≠ bytes) (pool : Option Nat) (w' : World) :
    ∃ cause, (ofBytes pool front : Action ParticleError (Particle dim spacedim × Bytes)).exec w' =
      (Attempt.refuse (.malformed cause), w') := by
  obtain ⟨r, -, hrecord⟩ := encode_eq_ok_iff.mp henc
  obtain ⟨cause, hrun⟩ := Record.run_decoder_of_prefix hrecord hfront hne
  exact ⟨cause, exec_ofBytes_error hrun⟩

end Particle

namespace Batch

open Particle

variable {ps qs : List (Particle dim spacedim)}

/-- Records one after the other are what a batch is written as. -/
theorem encode_flatten {chunks : List Bytes}
    (hchunks : List.Forall₂ (fun chunk p => ∃ r, r.encode = .ok chunk ∧ p.toRecord w = .ok r)
      chunks ps) : encode w ps = .ok chunks.flatten := by
  induction hchunks with
  | nil => rfl
  | cons hfirst _ ih =>
    obtain ⟨r, hrecord, hr⟩ := hfirst
    exact encode_cons_eq_ok_iff.mpr ⟨_, _, encode_eq_ok_iff.mpr ⟨r, hr, hrecord⟩, ih, rfl⟩

/-- Particles that were made of a whole buffer are written as that buffer again. -/
theorem Accepted.encode_eq {pool : Option Nat} (accepted : Accepted pool w bytes ps w' [])
    (supplied : w.Supplied pool) : encode w' ps = .ok bytes := by
  obtain ⟨chunks, heq, hchunks⟩ := accepted.records supplied
  rw [List.append_nil] at heq
  rw [heq]
  exact encode_flatten hchunks

/-- The same bytes are written only by particles with the same records. -/
theorem forall₂_toRecord (henc : encode w ps = .ok bytes) (henc' : encode w' qs = .ok bytes) :
    List.Forall₂ (fun p q => ∃ r, p.toRecord w = .ok r ∧ q.toRecord w' = .ok r) ps qs := by
  induction ps generalizing qs bytes with
  | nil =>
    cases henc
    cases qs with
    | nil => exact .nil
    | cons q later =>
      obtain ⟨first, more, hfirst, -, heq⟩ := encode_cons_eq_ok_iff.mp henc'
      obtain ⟨r, -, hrecord⟩ := encode_eq_ok_iff.mp hfirst
      exact absurd (List.append_eq_nil_iff.mp heq.symm).1 (Record.encode_ne_nil hrecord)
  | cons p earlier ih =>
    obtain ⟨first, more, hfirst, hmore, heq⟩ := encode_cons_eq_ok_iff.mp henc
    obtain ⟨r, hr, hrecord⟩ := encode_eq_ok_iff.mp hfirst
    cases qs with
    | nil =>
      cases henc'
      exact absurd (List.append_eq_nil_iff.mp heq.symm).1 (Record.encode_ne_nil hrecord)
    | cons q later =>
      obtain ⟨first', more', hfirst', hmore', heq'⟩ := encode_cons_eq_ok_iff.mp henc'
      obtain ⟨r', hr', hrecord'⟩ := encode_eq_ok_iff.mp hfirst'
      -- both records stand at the front of the bytes, and what follows them is the same
      obtain ⟨rfl, -, rfl⟩ := Record.eq_of_append_eq hrecord hrecord' (heq.symm.trans heq')
      exact .cons ⟨r, hr, hr'⟩ (ih hmore hmore')

/-- So these particles show the same. -/
theorem forall₂_of_encode (wf : w.WellFormed) (wf' : w'.WellFormed) (henc : encode w ps = .ok bytes)
    (henc' : encode w' qs = .ok bytes) :
    List.Forall₂ (fun p q => p.SameContents w w' q) ps qs :=
  (forall₂_toRecord henc henc').imp fun _ _ ⟨_, hr, hr'⟩ => sameContents_of_toRecord wf wf' hr hr'

end Batch

namespace Session

open Particle

/-- What the bytes say that particles of the sessions `s` and `s'` are written as. -/
structure UniquelyDecodable (s s' : Session dim spacedim) : Prop where
  /-- Equal buffers were written by as many particles, which show the same one by one. -/
  batches : ∀ (ps qs : List (Particle dim spacedim)) (bytes : Bytes),
    Batch.encode s.world ps = .ok bytes → Batch.encode s'.world qs = .ok bytes →
    List.Forall₂ (fun p q => p.SameContents s.world s'.world q) ps qs
  /-- No record is a proper front of another one. -/
  prefix_free : ∀ (p q : Particle dim spacedim) (bytes bytes' : Bytes),
    p.encode s.world = .ok bytes → q.encode s'.world = .ok bytes' → bytes <+: bytes' →
    bytes = bytes'
  /-- A proper front of a record is refused as malformed, whatever pool of whatever world is
  given, and nothing changes. -/
  truncated : ∀ (p : Particle dim spacedim) (bytes front : Bytes),
    p.encode s.world = .ok bytes → front <+: bytes → front ≠ bytes →
    ∀ (pool : Option Nat) (w : World), ∃ cause,
      (ofBytes pool front : Action ParticleError (Particle dim spacedim × Bytes)).exec w =
        (Attempt.refuse (.malformed cause), w)

/-- **Buffers are decodable in one way.** After any two runs of steps, two populations that are
written as the same bytes show the same. -/
theorem uniquelyDecodable_run (steps steps' : List (Step dim spacedim)) :
    UniquelyDecodable (run ({} : Session dim spacedim) steps).2
      (run ({} : Session dim spacedim) steps').2 where
  batches _ _ _ :=
    Batch.forall₂_of_encode (sound_reached steps).wellFormed (sound_reached steps').wellFormed
  prefix_free p q bytes bytes' henc henc' hfront := by
    obtain ⟨r, -, hrecord⟩ := encode_eq_ok_iff.mp henc
    obtain ⟨r', -, hrecord'⟩ := encode_eq_ok_iff.mp henc'
    exact Record.eq_of_prefix hrecord hrecord' hfront
  truncated _ _ _ henc hfront hne := exec_ofBytes_of_prefix henc hfront hne

end Session

end ParticleStore
