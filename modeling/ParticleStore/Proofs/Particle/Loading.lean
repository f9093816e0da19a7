/-
ParticleStore.Proofs.Particle.Loading — a new particle from a stream, and one from a buffer.

A particle without a slot takes one when it loads a record with values, as a new particle
does that is made of bytes. The two ways differ in what they know, and when: the bytes of a
buffer are all there before anything is decided, and a stream is asked for the values only
after the pool has allowed their count. So they agree on every record that is all there, on
the particle, the pools and the bytes left (`load_eq_ok_iff_ofBytes`). Of a record that is
cut short the stream says that it has ended, unless the count was refused before that
(`receiveRecord_eq`).

A particle that has been loaded leaves the stream where its record ends, so a stream of
records is loaded in turn as it is read from a buffer (`loaded_iff_accepted`).
-/
import ParticleStore.Proofs.Particle.Grammar
import ParticleStore.Proofs.Particle.Streams

namespace ParticleStore

open ParticleStore.Action World

variable {dim spacedim : Nat} {chunk pool : Option Nat} {n : Nat} {d left : Bytes} {w w' w₁ : World}
  {p p' : Particle dim spacedim} {r : Record dim spacedim}

/-! ## Receiving by position -/

namespace Particle

theorem declaredCount_take (dim spacedim : Nat) (d : Bytes) :
    declaredCount dim spacedim (d.take (Header.byteWidth dim spacedim)) =
      Header.declared dim spacedim d := by
  have hcount : Header.byteWidth dim spacedim -
      (Header.byteWidth dim spacedim - Header.countWidth) = Header.countWidth :=
    Nat.sub_sub_self (Nat.le_add_left ..)
  rw [declaredCount, Header.declared, List.drop_take, hcount]

/-- The header is received, then its count is judged, and then the values are received. -/
theorem receiveRecord_eq (hpass : Stream.passes chunk = true)
    (allowed : Nat → Attempt ParticleError Unit) (d : Bytes) :
    receiveRecord dim spacedim chunk allowed d =
      let count := Header.declared dim spacedim d
      let width := Record.byteWidth dim spacedim count
      if d.length < Header.byteWidth dim spacedim then (Attempt.refuse (.stream .endedEarly), [])
      else
        match allowed count with
        | .error failure => (.error failure, d.drop (Header.byteWidth dim spacedim))
        | .ok () =>
          if d.length < width then (Attempt.refuse (.stream .endedEarly), [])
          else (.ok (d.take width), d.drop width) := by
  unfold receiveRecord
  rw [Stream.receive_eq hpass]
  by_cases hhead : Header.byteWidth dim spacedim ≤ d.length
  · simp only [if_pos hhead, if_neg (Nat.not_lt.mpr hhead), declaredCount_take]
    cases allowed (Header.declared dim spacedim d) with
    | error failure => rfl
    | ok _ =>
      simp only [Stream.receive_eq hpass, List.length_drop]
      by_cases hvalues : Header.declared dim spacedim d * Scalar.byteWidth ≤
          d.length - Header.byteWidth dim spacedim
      · have henough : Record.byteWidth dim spacedim (Header.declared dim spacedim d) ≤ d.length := by
          rw [Record.byteWidth]
          omega
        simp only [if_pos hvalues, if_neg (Nat.not_lt.mpr henough), List.drop_drop, ← List.take_add]
        rfl
      · have hshort : d.length < Record.byteWidth dim spacedim (Header.declared dim spacedim d) := by
          rw [Record.byteWidth]
          omega
        simp only [if_neg hvalues, if_pos hshort]
  · simp only [if_neg hhead, if_pos (Nat.lt_of_not_le hhead)]

/-! ## A particle without a slot -/

/-- A particle without a slot takes over a record as a new particle is made of it. -/
theorem exec_absorb_of_invalid (hh : p.handle = .invalid) (r : Record dim spacedim) :
    (p.absorb r).exec w = (ofRecord p.pool r).exec w := by
  obtain ⟨location, reference, id, pool, handle⟩ := p
  obtain rfl : handle = .invalid := hh
  rfl

/-- A count that is not allowed is what the record is refused for. -/
theorem exec_ofRecord_of_accepts_error {failure : Failure ParticleError}
    (haccepts : p.accepts w r.values.length = .error failure) :
    (ofRecord p.pool r).exec w = (.error failure, w) := by
  unfold accepts at haccepts
  by_cases hcount : r.values.length = 0
  · rw [if_pos hcount] at haccepts
    cases haccepts
  rw [if_neg hcount] at haccepts
  have hempty : r.values.isEmpty = false := by simpa using hcount
  cases hfor : w.poolFor p.pool r.values.length with
  | ok i =>
    rw [hfor] at haccepts
    cases haccepts
  | error cause =>
    rw [hfor] at haccepts
    cases haccepts
    unfold ofRecord
    simp only [hempty, Bool.false_eq_true, if_false]
    rw [exec_bind, exec_query, hfor]

/-- A record that is all there is loaded as a new particle is made of it. -/
theorem run_load_of_complete (hpass : Stream.passes chunk = true) (hh : p.handle = .invalid)
    (hflaw : Header.flaw? dim spacedim d = none) :
    let made := (ofRecord p.pool (Record.front dim spacedim d)).exec w
    ∃ left, (p.load chunk d).run w = ((made.1, left), made.2) ∧
      (∀ q, made.1 = .ok q →
        left = d.drop (Record.byteWidth dim spacedim (Header.declared dim spacedim d))) := by
  have hsplit :=
    List.take_append_drop (Record.byteWidth dim spacedim (Header.declared dim spacedim d)) d
  rw [← congrArg (p.load chunk) hsplit, run_load_append hpass (Record.encode_front hflaw)]
  cases haccepts : p.accepts w (Record.front dim spacedim d).values.length with
  | error failure =>
    rw [exec_ofRecord_of_accepts_error haccepts]
    exact ⟨_, rfl, nofun⟩
  | ok _ =>
    simp only [exec_absorb_of_invalid hh]
    exact ⟨_, rfl, fun _ _ => rfl⟩

theorem exec_ofBytes_of_complete (pool : Option Nat) (hflaw : Header.flaw? dim spacedim d = none) :
    (ofBytes pool d).exec w =
      ((fun q => (q, d.drop (Record.byteWidth dim spacedim (Header.declared dim spacedim d)))) <$>
        ofRecord pool (Record.front dim spacedim d)).exec w := by
  have hdecode := Record.run_decoder dim spacedim d
  rw [hflaw] at hdecode
  exact exec_ofBytes_ok hdecode

/-- **Loading is making.** A particle without a slot that is loaded is the particle that is made of
the same bytes, and as many of them are left. -/
theorem load_eq_ok_iff_ofBytes (hpass : Stream.passes chunk = true) (hh : p.handle = .invalid) :
    (p.load chunk d).run w = ((.ok p', left), w') ↔
      (ofBytes p.pool d).exec w = (.ok (p', left), w') := by
  cases hflaw : Header.flaw? dim spacedim d with
  | some cause =>
    have hdecode := Record.run_decoder dim spacedim d
    rw [hflaw] at hdecode
    rw [exec_ofBytes_error hdecode]
    constructor
    · intro hload
      obtain ⟨r, hr⟩ := exists_record_of_load hload
      rw [hdecode] at hr
      cases hr
    · intro hmade
      cases hmade
  | none =>
    obtain ⟨rest, hload, hrest⟩ := run_load_of_complete (w := w) hpass hh hflaw
    rw [hload, exec_ofBytes_of_complete p.pool hflaw, exec_map]
    rcases hmade : (ofRecord p.pool (Record.front dim spacedim d)).exec w with ⟨result, w₁⟩
    rw [hmade] at hrest
    cases result with
    | error failure => exact ⟨nofun, nofun⟩
    | ok q =>
      rw [hrest q rfl]
      constructor
      · intro heq; cases heq; rfl
      · intro heq; cases heq; rfl

/-- What loading a particle without a slot has in common with making a particle of the same bytes,
and what is said of bytes that are too few. -/
structure LoadsAsMade (w : World) (p : Particle dim spacedim) (chunk : Option Nat) (d : Bytes) :
    Prop where
  /-- The particle, the bytes left and the pools are the same. -/
  load_iff : ∀ p' left w', (p.load chunk d).run w = ((.ok p', left), w') ↔
    (ofBytes p.pool d).exec w = (.ok (p', left), w')
  /-- A record that is all there is refused for the same cause. -/
  refused_iff : Record.byteWidth dim spacedim (Header.declared dim spacedim d) ≤ d.length →
    ∀ failure w', (∃ left, (p.load chunk d).run w = ((.error failure, left), w')) ↔
      (ofBytes p.pool d : Action ParticleError (Particle dim spacedim × Bytes)).exec w =
        (.error failure, w')
  /-- What is refused leaves every pool alone. -/
  untouched : ∀ failure left w', (p.load chunk d).run w = ((.error failure, left), w') → w' = w
  /-- A stream that ends in the header has ended early. -/
  header_cut : d.length < Header.byteWidth dim spacedim →
    (p.load chunk d).run w = ((Attempt.refuse (.stream .endedEarly), []), w)
  /-- A stream that ends in the values has ended early, if the pool would have them. Otherwise they
  have not been asked for. -/
  values_cut : Header.byteWidth dim spacedim ≤ d.length →
    d.length < Record.byteWidth dim spacedim (Header.declared dim spacedim d) →
    let count := Header.declared dim spacedim d
    let behind := d.drop (Header.byteWidth dim spacedim)
    (p.load chunk d).run w =
      match p.pool.bind w.pool? with
      | none => ((Attempt.refuse (.missingPool count), behind), w)
      | some pl =>
        if pl.stride ≠ count then ((Attempt.refuse (.countMismatch count pl.stride), behind), w)
        else ((Attempt.refuse (.stream .endedEarly), []), w)
  /-- No bytes are said not to be a record. -/
  never_malformed : ∀ cause left w',
    (p.load chunk d).run w ≠ ((Attempt.refuse (.malformed cause), left), w')

theorem run_load_of_header_cut (hpass : Stream.passes chunk = true)
    (hcut : d.length < Header.byteWidth dim spacedim) :
    (p.load chunk d).run w = ((Attempt.refuse (.stream .endedEarly), []), w) := by
  rw [run_load, receiveRecord_eq hpass]
  simp only [if_pos hcut]
  rfl

theorem run_load_of_values_cut (placed : p.Placed w) (hpass : Stream.passes chunk = true)
    (hhead : Header.byteWidth dim spacedim ≤ d.length)
    (hcut : d.length < Record.byteWidth dim spacedim (Header.declared dim spacedim d)) :
    let count := Header.declared dim spacedim d
    let behind := d.drop (Header.byteWidth dim spacedim)
    (p.load chunk d).run w =
      match p.pool.bind w.pool? with
      | none => ((Attempt.refuse (.missingPool count), behind), w)
      | some pl =>
        if pl.stride ≠ count then ((Attempt.refuse (.countMismatch count pl.stride), behind), w)
        else ((Attempt.refuse (.stream .endedEarly), []), w) := by
  have hcount : Header.declared dim spacedim d ≠ 0 := by
    intro hzero
    rw [hzero, Record.byteWidth] at hcut
    omega
  rw [run_load, receiveRecord_eq hpass]
  simp only [if_neg (Nat.not_lt.mpr hhead), if_pos hcut]
  rw [accepts, if_neg hcount]
  cases hpool : p.pool with
  | none => rfl
  | some i =>
    obtain ⟨pl, hp, -⟩ := placed.pool i hpool
    rw [poolFor_eq hp, Option.bind_some, hp, mismatch?]
    by_cases hstride : pl.stride = Header.declared dim spacedim d
    · simp only [hstride, ne_eq, not_true_eq_false, if_false]
      rfl
    · simp only [ne_eq, hstride, Ne.symm hstride, not_false_eq_true, if_true]
      rfl

/-- Where there is no place for a record, it is not because of its bytes. -/
theorem unplaced?_ne_malformed (w : World) (pool : Option Nat) (n : Nat) (cause : RecordError) :
    w.unplaced? pool n ≠ some (.malformed cause) := by
  intro h
  unfold unplaced? at h
  split at h
  · cases h
  · split at h
    · cases h
    · obtain ⟨pl, -, hpl⟩ := Option.bind_eq_some_iff.mp h
      rw [mismatch?] at hpl
      split at hpl
      · cases hpl
      · rw [Option.none_or, Option.map_eq_some_iff] at hpl
        obtain ⟨_, -, hcause⟩ := hpl
        cases hcause

theorem exec_ofRecord_ne_malformed (supplied : w.Supplied pool) (r : Record dim spacedim)
    (cause : RecordError) : ((ofRecord pool r).exec w).1 ≠ Attempt.refuse (.malformed cause) := by
  obtain ⟨q, w', hmade, -⟩ := exec_ofRecord_eq supplied r
  rw [hmade]
  intro heq
  cases hplace : w.unplaced? pool r.values.length with
  | none =>
    rw [hplace] at heq
    cases heq
  | some refused =>
    rw [hplace] at heq
    cases heq
    exact unplaced?_ne_malformed _ _ _ _ hplace

theorem loadsAsMade (wf : w.WellFormed) (placed : p.Placed w) (hs : p.slot? = none)
    (hpass : Stream.passes chunk = true) (d : Bytes) : p.LoadsAsMade w chunk d where
  load_iff p' left w' := load_eq_ok_iff_ofBytes hpass (placed.handle_eq hs)
  refused_iff henough failure w' := by
    have hflaw := (Header.flaw?_eq_none_iff dim spacedim d).mpr henough
    obtain ⟨rest, hload, -⟩ := run_load_of_complete (w := w) hpass (placed.handle_eq hs) hflaw
    rw [hload, exec_ofBytes_of_complete p.pool hflaw, exec_map]
    rcases (ofRecord p.pool (Record.front dim spacedim d)).exec w with ⟨result, w₁⟩
    cases result with
    | error cause =>
      constructor
      · rintro ⟨_, heq⟩
        cases heq
        rfl
      · intro heq
        cases heq
        exact ⟨rest, rfl⟩
    | ok q => exact ⟨nofun, nofun⟩
  untouched failure left w' hload := by
    obtain ⟨result, rest, w₁, heq, -, hpost⟩ := load_settles wf placed chunk d
    rw [hload] at heq
    cases heq
    exact hpost.1
  header_cut hcut := run_load_of_header_cut hpass hcut
  values_cut hhead hcut := run_load_of_values_cut placed hpass hhead hcut
  never_malformed cause left w' hload := by
    by_cases hhead : d.length < Header.byteWidth dim spacedim
    · rw [run_load_of_header_cut hpass hhead] at hload
      cases hload
    by_cases hcut : d.length < Record.byteWidth dim spacedim (Header.declared dim spacedim d)
    · rw [run_load_of_values_cut placed hpass (Nat.le_of_not_lt hhead) hcut] at hload
      split at hload
      · cases hload
      · split at hload <;> cases hload
    · have hflaw := (Header.flaw?_eq_none_iff dim spacedim d).mpr (Nat.le_of_not_lt hcut)
      have supplied : w.Supplied p.pool :=
        ⟨wf, fun i hi => (placed.pool i hi).imp fun _ hp => hp.1⟩
      obtain ⟨rest, heq, -⟩ := run_load_of_complete (w := w) hpass (placed.handle_eq hs) hflaw
      rw [hload] at heq
      exact exec_ofRecord_ne_malformed supplied _ cause (congrArg (·.1.1) heq).symm

end Particle

/-! ## Records in turn -/

namespace Batch

open Particle

/-- Particles are loaded from one stream in turn: the particles before and after it, and the
stream and the world after the last of them. -/
inductive Loaded (chunk : Option Nat) :
    World → Bytes → List (Particle dim spacedim) → List (Particle dim spacedim) → World → Bytes → Prop
  | nil (w : World) (d : Bytes) : Loaded chunk w d [] [] w d
  | cons {w w₁ w₂ : World} {d rest left : Bytes} {p q : Particle dim spacedim}
      {ps qs : List (Particle dim spacedim)} :
      (p.load chunk d).run w = ((.ok q, rest), w₁) → Loaded chunk w₁ rest ps qs w₂ left →
      Loaded chunk w d (p :: ps) (q :: qs) w₂ left

variable {ps qs : List (Particle dim spacedim)}

/-- Where each load leaves the stream, the next record begins. -/
theorem loaded_iff_accepted (hpass : Stream.passes chunk = true)
    (hspare : ∀ p ∈ ps, p.handle = .invalid ∧ p.pool = pool) :
    Loaded chunk w d ps qs w₁ left ↔ qs.length = ps.length ∧ Accepted pool w d qs w₁ left := by
  constructor
  · intro loaded
    induction loaded with
    | nil w d => exact ⟨rfl, .nil w d⟩
    | cons hload _ ih =>
      obtain ⟨hh, rfl⟩ := hspare _ List.mem_cons_self
      obtain ⟨hlength, accepted⟩ := ih fun p hp => hspare p (List.mem_cons_of_mem _ hp)
      refine ⟨by rw [List.length_cons, List.length_cons, hlength], .cons ?_ accepted⟩
      exact (load_eq_ok_iff_ofBytes hpass hh).mp hload
  · rintro ⟨hlength, accepted⟩
    induction accepted generalizing ps with
    | nil w d =>
      obtain rfl := List.length_eq_zero_iff.mp hlength.symm
      exact .nil w d
    | cons hexec _ ih =>
      cases ps with
      | nil => cases hlength
      | cons p later =>
        obtain ⟨hh, rfl⟩ := hspare p List.mem_cons_self
        refine .cons ((load_eq_ok_iff_ofBytes hpass hh).mpr hexec) (ih ?_ (Nat.succ.inj hlength))
        exact fun q hq => hspare q (List.mem_cons_of_mem p hq)

end Batch

namespace Session

open Particle Batch

/-- What the particles `ps`, none of which holds a slot, load from a stream. -/
structure StreamsAsBuffer (w : World) (pool : Option Nat) (chunk : Option Nat)
    (ps : List (Particle dim spacedim)) (d : Bytes) : Prop where
  /-- Each of them loads what a particle is made of. -/
  each : ∀ p ∈ ps, p.LoadsAsMade w chunk d
  /-- One after the other they load the records that lie in a buffer one behind the other. -/
  inTurn : ∀ qs w' left, Loaded chunk w d ps qs w' left ↔
    qs.length = ps.length ∧ Accepted pool w d qs w' left

/-- **A stream gives what a buffer gives.** After any run of steps, for particles of one pool or
without a pool that hold no slot, and for a stream of any bytes. -/
theorem streamsAsBuffer_run (steps : List (Step dim spacedim)) (pool chunk : Option Nat)
    (ps : List (Particle dim spacedim)) (d : Bytes) (hpass : Stream.passes chunk = true)
    (hspare : ∀ p ∈ ps, p.slot? = none ∧ p.pool = pool ∧
      ∃ key, (run ({} : Session dim spacedim) steps).2.particles.find? key = some p) :
    StreamsAsBuffer (run ({} : Session dim spacedim) steps).2.world pool chunk ps d := by
  have sound := sound_reached steps
  have hplaced : ∀ p ∈ ps, p.Placed (run ({} : Session dim spacedim) steps).2.world := by
    intro p hp
    obtain ⟨-, -, key, hkey⟩ := hspare p hp
    exact sound.placed hkey
  refine ⟨fun p hp => ?_, fun qs w' left => ?_⟩
  · exact loadsAsMade sound.wellFormed (hplaced p hp) (hspare p hp).1 hpass d
  · refine loaded_iff_accepted hpass fun p hp => ?_
    obtain ⟨hs, hpool, -⟩ := hspare p hp
    exact ⟨(hplaced p hp).handle_eq hs, hpool⟩

/-- Two particles load the two records of one stream, three bytes at a time. -/
theorem streamsAsBuffer_run_of_two :
    let steps : List (Step 0 0) :=
      [.makePool { stride := 1 }, .make 0, .moveTo 0 0, .make 1, .moveTo 1 0]
    let s := (run {} steps).2
    let record (x : UInt8) : Bytes := List.replicate 8 0 ++ [1, 0, 0, 0] ++ List.replicate 8 x
    let spare : Particle 0 0 := { Particle.atOrigin with pool := some 0 }
    s.particles.find? 0 = some spare ∧ s.particles.find? 1 = some spare ∧
      StreamsAsBuffer s.world (some 0) (some 3) [spare, spare] (record 5 ++ record 6) ∧
      ∃ qs w', Loaded (some 3) s.world (record 5 ++ record 6) [spare, spare] qs w' [] := by
  intro steps s record spare
  refine ⟨rfl, rfl, streamsAsBuffer_run steps (some 0) (some 3) _ _ rfl ?_, ?_⟩
  · intro p hp
    obtain rfl : p = spare := by simpa using hp
    exact ⟨rfl, rfl, 0, rfl⟩
  · let loaded (i : UInt32) : Particle 0 0 := { spare with handle := ⟨⟨1⟩, i, 0⟩ }
    have hfirst : ((spare.load (some 3) (record 5 ++ record 6)).run s.world).1 =
        (.ok (loaded 0), record 6) := by
      decide +kernel
    have hsecond : ((spare.load (some 3) (record 6)).run
        ((spare.load (some 3) (record 5 ++ record 6)).run s.world).2).1 = (.ok (loaded 1), []) := by
      decide +kernel
    revert hfirst hsecond
    rcases hload : (spare.load (some 3) (record 5 ++ record 6)).run s.world with ⟨first, w₁⟩
    rintro rfl hsecond
    revert hsecond
    rcases hload' : (spare.load (some 3) (record 6)).run w₁ with ⟨second, w₂⟩
    rintro rfl
    exact ⟨_, w₂, .cons hload (.cons hload' (.nil w₂ []))⟩

end Session

end ParticleStore
