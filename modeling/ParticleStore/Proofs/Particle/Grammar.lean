/-
ParticleStore.Proofs.Particle.Grammar — which bytes become a particle.

Whether the record at the front of some bytes becomes a particle is decided by two
numbers: how many bytes there are, and the count that the header declares. Only a count
other than zero is a matter of the pool, and only if the values are there
(`objection?`). The checks of a reading stand in several places, and some of them are made
twice; `refusal?_eq_objection?` shows that together they come to this one list.
-/
import ParticleStore.Proofs.Reading
import ParticleStore.Proofs.Record.Layout

namespace ParticleStore

open ParticleStore.Action World

variable {dim spacedim : Nat} {w : World} {pool : Option Nat} {d : Bytes}

namespace Particle

/-- Why no particle is made of the bytes, in the order in which the causes are looked for: bytes
that are too few, and then, for a record with values, a pool that is missing, of another stride,
viewed, or full. -/
def objection? (w : World) (pool : Option Nat) (dim spacedim : Nat) (d : Bytes) :
    Option ParticleError :=
  let count := Header.declared dim spacedim d
  match Header.flaw? dim spacedim d with
  | some cause => some (.malformed cause)
  | none =>
    if count = 0 then none
    else
      match pool.bind w.pool? with
      | none => some (.missingPool count)
      | some pl =>
        if pl.stride ≠ count then some (.countMismatch count pl.stride)
        else if pl.isViewed then some (.pool .storageBorrowed)
        else if pl.live = pl.config.slotLimit then
          some (.pool (.outOfResources (pl.live + 1) pl.config.slotLimit))
        else none

/-- A pool has at most as many live slots as it may have, so one that is not at its limit is below
it. -/
theorem full?_eq_of_wellFormed {pl : Pool} (wf : pl.WellFormed) :
    pl.full? = if pl.live = pl.config.slotLimit then
      some (.outOfResources (pl.live + 1) pl.config.slotLimit) else none := by
  have hle := wf.live_le_slotLimit
  unfold Pool.full?
  by_cases hfull : pl.live = pl.config.slotLimit
  · rw [if_pos (Nat.le_of_eq hfull.symm), if_pos hfull]
  · rw [if_neg (Nat.not_le.mpr (Nat.lt_of_le_of_ne hle hfull)), if_neg hfull]

/-- For a record that is all there, what counts is whether there is a place for its values. -/
theorem objection?_of_complete (supplied : w.Supplied pool)
    (h : Header.flaw? dim spacedim d = none) :
    objection? w pool dim spacedim d = w.unplaced? pool (Header.declared dim spacedim d) := by
  simp only [objection?, h]
  by_cases hcount : Header.declared dim spacedim d = 0
  · rw [if_pos hcount, hcount, unplaced?_zero]
  rw [if_neg hcount]
  cases pool with
  | none => rw [unplaced?_of_none hcount, Option.bind_none]
  | some i =>
    obtain ⟨pl, hp⟩ := supplied.pool i rfl
    rw [unplaced?_of_pool hcount hp, full?_eq_of_wellFormed (supplied.wellFormed.pool i pl hp),
      Option.bind_some, hp, mismatch?, Pool.viewed?]
    by_cases hstride : pl.stride = Header.declared dim spacedim d
    · simp only [hstride, ne_eq, not_true_eq_false, if_false, Option.none_or]
      by_cases hviewed : pl.isViewed = true
      · simp only [if_pos hviewed]
        rfl
      · simp only [if_neg hviewed]
        split <;> rfl
    · simp only [ne_eq, hstride, Ne.symm hstride, not_false_eq_true, if_true, Option.some_or]

/-- The checks of a reading come to one list. -/
theorem refusal?_eq_objection? (supplied : w.Supplied pool) (dim spacedim : Nat) (d : Bytes) :
    Batch.refusal? w pool dim spacedim d = objection? w pool dim spacedim d := by
  have hrun := Record.run_decoder dim spacedim d
  cases hflaw : Header.flaw? dim spacedim d with
  | some cause =>
    rw [hflaw] at hrun
    rw [Batch.refusal?_of_error hrun, objection?, hflaw]
  | none =>
    rw [hflaw] at hrun
    rw [Batch.refusal?_of_ok hrun, Record.length_values_front, objection?_of_complete supplied hflaw]

/-- What becomes of any bytes that are to be made into a particle. -/
structure Judged (dim spacedim : Nat) (w : World) (pool : Option Nat) (d : Bytes) : Prop where
  /-- If there is an objection they are refused for it, and nothing is changed. -/
  refused : ∀ cause, objection? w pool dim spacedim d = some cause →
    (ofBytes pool d : Action ParticleError (Particle dim spacedim × Bytes)).exec w =
      (Attempt.refuse cause, w)
  /-- Otherwise the particle is the record whose fields stand at their positions, and just that
  record's bytes are taken. -/
  accepted : objection? w pool dim spacedim d = none →
    let width := Record.byteWidth dim spacedim (Header.declared dim spacedim d)
    ∃ (q : Particle dim spacedim) (w' : World), width ≤ d.length ∧
      (ofBytes pool d).exec w = (.ok (q, d.drop width), w') ∧
      q.ReadAs w pool (Record.front dim spacedim d) w'
  /-- Without values no slot is taken, and there is no objection whatever the pool. -/
  bare : Header.byteWidth dim spacedim ≤ d.length → Header.declared dim spacedim d = 0 →
    let r := Record.front dim spacedim d
    objection? w pool dim spacedim d = none ∧ (ofBytes pool d).exec w =
      (.ok ({ Particle.bare r.location r.reference r.id with pool },
        d.drop (Header.byteWidth dim spacedim)), w)
  /-- Bytes that are too few are refused before any pool is asked: for the same cause in every
  world and for every pool. -/
  short : d.length < Record.byteWidth dim spacedim (Header.declared dim spacedim d) →
    ∃ cause, ∀ (v : World) (other : Option Nat),
      objection? v other dim spacedim d = some (.malformed cause) ∧
      (ofBytes other d : Action ParticleError (Particle dim spacedim × Bytes)).exec v =
        (Attempt.refuse (.malformed cause), v)

theorem judged (dim spacedim : Nat) (supplied : w.Supplied pool) (d : Bytes) :
    Judged dim spacedim w pool d where
  refused cause hcause := by
    rw [← refusal?_eq_objection? supplied] at hcause
    exact Batch.exec_ofBytes_refused supplied hcause
  accepted hnone := by
    rw [← refusal?_eq_objection? supplied] at hnone
    obtain ⟨q, rest, w', hexec, hread⟩ := Batch.exec_ofBytes_eq supplied dim spacedim d
    obtain ⟨r, hdecode, read⟩ := hread hnone
    rw [hnone, decided_none] at hexec
    rw [Record.run_decoder] at hdecode
    cases hflaw : Header.flaw? dim spacedim d with
    | some cause =>
      rw [hflaw] at hdecode
      cases hdecode
    | none =>
      rw [hflaw] at hdecode
      cases hdecode
      exact ⟨q, w', (Header.flaw?_eq_none_iff dim spacedim d).mp hflaw, hexec, read⟩
  bare henough hcount := by
    have hflaw : Header.flaw? dim spacedim d = none := by
      rw [Header.flaw?_eq_none_iff, hcount, Record.byteWidth, Nat.zero_mul, Nat.add_zero]
      exact henough
    have hvalues : (Record.front dim spacedim d).values = [] := by
      rw [← List.length_eq_zero_iff, Record.length_values_front, hcount]
    have hdecode := Record.run_decoder dim spacedim d
    rw [hflaw, hcount] at hdecode
    constructor
    · rw [objection?_of_complete supplied hflaw, hcount, unplaced?_zero]
    · rw [exec_ofBytes_ok hdecode, exec_map, exec_ofRecord_of_empty hvalues]
      rfl
  short hshort := by
    have hdecode := Record.run_decoder dim spacedim d
    cases hflaw : Header.flaw? dim spacedim d with
    | none =>
      exact absurd ((Header.flaw?_eq_none_iff dim spacedim d).mp hflaw) (Nat.not_le.mpr hshort)
    | some cause =>
      rw [hflaw] at hdecode
      refine ⟨cause, fun v other => ⟨?_, exec_ofBytes_error hdecode⟩⟩
      rw [objection?, hflaw]

end Particle

namespace Session

/-- **Bytes become a particle unless there is an objection, and for each objection there is its
error.** After any run of steps any bytes can be given, without a pool or with any pool there is. -/
theorem judged_run (steps : List (Step dim spacedim)) (pool : Option Nat) (d : Bytes)
    (hpool : ∀ i, pool = some i →
      ((run ({} : Session dim spacedim) steps).2.world.pool? i).isSome) :
    Particle.Judged dim spacedim (run ({} : Session dim spacedim) steps).2.world pool d :=
  Particle.judged dim spacedim ((sound_reached steps).supplied hpool) d

/-- A full pool is an objection to a record with a value, and none to a record without. -/
theorem judged_run_of_full :
    let steps : List (Step 0 0) := [.makePool { stride := 1, maxSlots := some 1 }, .allocate 0 0]
    let empty : Bytes := List.replicate 12 0
    let single : Bytes := List.replicate 8 0 ++ [1, 0, 0, 0] ++ List.replicate 8 5
    let w := (run {} steps).2.world
    (∀ i, some 0 = some i → (w.pool? i).isSome) ∧
      Particle.Judged 0 0 w (some 0) empty ∧ Particle.objection? w (some 0) 0 0 empty = none ∧
      Particle.Judged 0 0 w (some 0) single ∧
      Particle.objection? w (some 0) 0 0 single = some (.pool (.outOfResources 2 1)) := by
  intro steps empty single w
  have hpool : ∀ i, some 0 = some i → (w.pool? i).isSome := by
    intro i hi
    cases hi
    rfl
  exact ⟨hpool, judged_run steps (some 0) empty hpool, by decide +kernel,
    judged_run steps (some 0) single hpool, by decide +kernel⟩

end Session

end ParticleStore
