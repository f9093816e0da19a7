/-
ParticleStore.Proofs.Reading — reading arbitrary bytes, to the end or to the first refusal.

A buffer is read record by record. `Accepted pool w d ps w₁ left` says that from the front
of `d` records are accepted one after the other, which makes the particles `ps` and leaves
the bytes `left`. Either nothing is left, or the record at the front of `left` is refused
(`exists_accepted`). In the first case the reading returns the particles; in the second
it drops them, and of all the pools only the length of one table can tell that there
was a reading (`Undone`).

Whether a record is accepted depends on the bytes and on three things about one pool: its
configuration, its count of live slots, and whether a view is open (`refusal?`). A reading
that has given up leaves all three as they were (`SameRoom`), so it is refused again at
the same record for the same cause. Each record takes at least the fixed part of a
record, which is 12 bytes without any coordinates, so the reading ends.
-/
import ParticleStore.Proofs.Migration
import ParticleStore.Proofs.World.Filling

namespace ParticleStore

open ParticleStore.Action World

variable {dim spacedim : Nat} {w w' v v' w₁ v₁ : World} {pool : Option Nat} {i n : Nat}
  {r : Record dim spacedim} {q q' : Particle dim spacedim} {ps made : List (Particle dim spacedim)}
  {d rest left : Bytes}

namespace World

/-! ## The pool that is given -/

/-- The world is well-formed, and the pool that is given, if any, is there. -/
structure Supplied (w : World) (pool : Option Nat) : Prop where
  wellFormed : w.WellFormed
  pool : ∀ i, pool = some i → ∃ pl, w.pool? i = some pl

theorem Supplied.evolves (supplied : w.Supplied pool) (e : w.Evolves w') : w'.Supplied pool where
  wellFormed := e.wellFormed supplied.wellFormed
  pool i hi := by
    obtain ⟨pl, hp⟩ := supplied.pool i hi
    obtain ⟨pl', hp', -⟩ := e.pool i pl hp
    exact ⟨pl', hp'⟩

/-- Why there is no place for a record with `n` values. -/
def unplaced? (w : World) (pool : Option Nat) (n : Nat) : Option ParticleError :=
  if n = 0 then none
  else
    match pool with
    | none => some (.missingPool n)
    | some i => (w.pool? i).bind fun pl =>
      (mismatch? n pl.stride).or ((pl.viewed?.or pl.full?).map .pool)

theorem unplaced?_zero : w.unplaced? pool 0 = none := rfl

theorem unplaced?_of_none (hn : n ≠ 0) : w.unplaced? none n = some (.missingPool n) := by
  rw [unplaced?, if_neg hn]

theorem unplaced?_of_pool {pl : Pool} (hn : n ≠ 0) (hp : w.pool? i = some pl) :
    w.unplaced? (some i) n =
      (mismatch? n pl.stride).or ((pl.viewed?.or pl.full?).map .pool) := by
  simp only [unplaced?, if_neg hn, hp, Option.bind_some]

/-- The pool that is given has in both worlds the same configuration, as many live slots, and
open views or none. -/
def SameRoom (pool : Option Nat) (w v : World) : Prop :=
  ∀ i pl pl', pool = some i → w.pool? i = some pl → v.pool? i = some pl' →
    pl'.config = pl.config ∧ pl'.live = pl.live ∧ pl'.isViewed = pl.isViewed

/-- Where there is the same room, there is a place for the same records. -/
theorem SameRoom.unplaced?_eq (same : SameRoom pool w v) (supplied : w.Supplied pool)
    (supplied' : v.Supplied pool) (n : Nat) : v.unplaced? pool n = w.unplaced? pool n := by
  by_cases hn : n = 0
  · rw [hn, unplaced?_zero, unplaced?_zero]
  cases pool with
  | none => rw [unplaced?_of_none hn, unplaced?_of_none hn]
  | some i =>
    obtain ⟨pl, hp⟩ := supplied.pool i rfl
    obtain ⟨pl', hp'⟩ := supplied'.pool i rfl
    obtain ⟨hconfig, hlive, hviewed⟩ := same i pl pl' rfl hp hp'
    rw [unplaced?_of_pool hn hp, unplaced?_of_pool hn hp']
    simp only [Pool.stride, Pool.viewed?, Pool.full?, hconfig, hlive, hviewed]

end World

namespace Particle

/-! ## One record -/

/-- The particle `q` was made of the record `r`, with a slot of the pool that was given if the
record has values. -/
structure ReadAs (w : World) (pool : Option Nat) (r : Record dim spacedim) (w' : World)
    (q : Particle dim spacedim) : Prop where
  record : q.toRecord w' = .ok r
  pool_eq : q.pool = pool
  placed : q.Placed w'
  fills : w.Fills q.slots w'
  count_eq : ∀ i, (q.slots.countP fun slot => slot.1 == i) =
    if pool = some i ∧ r.values.length ≠ 0 then 1 else 0

/-- A record becomes a particle if there is a place for it, and is refused without a trace
otherwise. -/
theorem exec_ofRecord_eq (supplied : w.Supplied pool) (r : Record dim spacedim) :
    ∃ q w', (ofRecord pool r).exec w = decided (w.unplaced? pool r.values.length) w q w' ∧
      (w.unplaced? pool r.values.length = none → q.ReadAs w pool r w') := by
  have wf := supplied.wellFormed
  by_cases hv : r.values = []
  · have hplace : w.HasPlace pool r.values.length := fun hne => absurd (by rw [hv]; rfl) hne
    obtain ⟨q, w', hexec, hrecord, hmade⟩ := exec_ofRecord_of_hasPlace wf r hplace
    have hplaced := (ofRecord_settles wf supplied.pool).ok hexec
    rw [exec_ofRecord_of_empty hv] at hexec
    cases hexec
    refine ⟨_, w, by rw [exec_ofRecord_of_empty hv, hv]; rfl, fun _ => ?_⟩
    refine ⟨hrecord, hmade.pool_eq, hplaced.placed, ?_, hmade.count_eq⟩
    rw [slots_of_invalid rfl]
    exact .refl wf
  · have hn : r.values.length ≠ 0 := by simpa using hv
    cases pool with
    | none =>
      refine ⟨default, w, ?_, fun hnone => ?_⟩
      · rw [exec_ofRecord_of_none hv, unplaced?_of_none hn]
        rfl
      · rw [unplaced?_of_none hn] at hnone
        cases hnone
    | some i =>
      obtain ⟨pl, hp⟩ := supplied.pool i rfl
      have wfp := wf.pool i pl hp
      rw [unplaced?_of_pool hn hp]
      refine ⟨_, _, exec_ofRecord_of_pool hv hp wfp, fun hnone => ?_⟩
      have hexec := exec_ofRecord_of_pool hv hp wfp
      rw [hnone, decided_none] at hexec
      rw [Option.or_eq_none_iff, mismatch?_eq_none_iff, Option.map_eq_none_iff, Option.or_eq_none_iff,
        Pool.viewed?_eq_none_iff, Pool.full?_eq_none_iff] at hnone
      obtain ⟨hstride, hview, hroom⟩ := hnone
      have hplace : w.HasPlace (some i) r.values.length :=
        fun _ => ⟨i, pl, rfl, hp, hstride.symm, hview, hroom⟩
      obtain ⟨q, w', hexec', hrecord, hmade⟩ := exec_ofRecord_of_hasPlace wf r hplace
      have hplaced := (ofRecord_settles wf supplied.pool).ok hexec
      rw [hexec] at hexec'
      cases hexec'
      refine ⟨hrecord, hmade.pool_eq, hplaced.placed, ?_, hmade.count_eq⟩
      rw [slots_of_pool rfl (wfp.isValid_of_pool rfl)]
      exact .of_filled wf hp hview hroom hstride

/-- Readings in worlds with the same room leave the same room. -/
theorem ReadAs.sameRoom (read : q.ReadAs w pool r w') (read' : q'.ReadAs v pool r v')
    (supplied : w.Supplied pool) (supplied' : v.Supplied pool) (same : SameRoom pool w v) :
    SameRoom pool w' v' := by
  intro i pl₁ pl₁' hpool hp₁ hp₁'
  obtain ⟨pl, hp⟩ := supplied.pool i hpool
  obtain ⟨pl', hp'⟩ := supplied'.pool i hpool
  obtain ⟨hconfig, hlive, hviewed⟩ := same i pl pl' hpool hp hp'
  have gains := read.fills.gains
  have gains' := read'.fills.gains
  obtain ⟨_, hq, -, hconfig₁, hreaders₁, hwriters₁, -⟩ := gains.evolves.pool i pl hp
  obtain ⟨_, hq', -, hconfig₁', hreaders₁', hwriters₁', -⟩ := gains'.evolves.pool i pl' hp'
  rw [hp₁] at hq
  rw [hp₁'] at hq'
  cases hq
  cases hq'
  refine ⟨by rw [hconfig₁', hconfig, hconfig₁], ?_, ?_⟩
  · rw [gains.live_eq i pl pl₁ hp hp₁, gains'.live_eq i pl' pl₁' hp' hp₁', hlive, read.count_eq,
      read'.count_eq]
  · rw [Pool.isViewed, hreaders₁', hwriters₁', ← Pool.isViewed, hviewed, Pool.isViewed, Pool.isViewed,
      hreaders₁, hwriters₁]

/-- Particles of one pool hold as many slots of it as there are particles that hold one. -/
theorem countP_slotsOf (hpool : ∀ q ∈ ps, q.pool = pool) (i : Nat) :
    ((slotsOf ps).countP fun slot => slot.1 == i) =
      if pool = some i then ps.countP (·.hasProperties) else 0 := by
  induction ps with
  | nil => simp
  | cons q rest ih =>
    rw [slotsOf_cons, List.countP_append, ih fun q' hq' => hpool q' (List.mem_cons_of_mem q hq'),
      List.countP_cons]
    cases hs : q.slot? with
    | none => simp [slots_of_none hs, hasProperties, hs]
    | some slot =>
      obtain ⟨j, h⟩ := slot
      have hj : pool = some j := by
        rw [← hpool q List.mem_cons_self]
        exact (slot?_eq_some_iff.mp hs).1
      subst hj
      by_cases hij : j = i
      · simp [slots_of_slot hs, hasProperties, hs, hij, Nat.add_comm]
      · simp [slots_of_slot hs, hij]

end Particle

namespace Batch

open Particle

/-! ## Record after record -/

/-- Why the record at the front is refused. -/
def refusal? (w : World) (pool : Option Nat) (dim spacedim : Nat) (input : Bytes) :
    Option ParticleError :=
  match (Record.decoder dim spacedim).run input with
  | .error cause => some (.malformed cause)
  | .ok (r, _) => w.unplaced? pool r.values.length

theorem refusal?_of_error {cause : RecordError}
    (hd : (Record.decoder dim spacedim).run d = .error cause) :
    refusal? w pool dim spacedim d = some (.malformed cause) := by
  rw [refusal?, hd]

theorem refusal?_of_ok (hd : (Record.decoder dim spacedim).run d = .ok (r, rest)) :
    refusal? w pool dim spacedim d = w.unplaced? pool r.values.length := by
  rw [refusal?, hd]

/-- Where there is the same room, the same records are refused. -/
theorem refusal?_of_sameRoom (same : SameRoom pool w v) (supplied : w.Supplied pool)
    (supplied' : v.Supplied pool) (dim spacedim : Nat) (d : Bytes) :
    refusal? v pool dim spacedim d = refusal? w pool dim spacedim d := by
  cases hd : (Record.decoder dim spacedim).run d with
  | error cause => rw [refusal?_of_error hd, refusal?_of_error hd]
  | ok result => rw [refusal?_of_ok hd, refusal?_of_ok hd, same.unplaced?_eq supplied supplied']

/-- The record at the front is refused without a trace, or becomes a particle. -/
theorem exec_ofBytes_eq (supplied : w.Supplied pool) (dim spacedim : Nat) (d : Bytes) :
    ∃ (q : Particle dim spacedim) (rest : Bytes) (w' : World),
      (ofBytes pool d).exec w = decided (refusal? w pool dim spacedim d) w (q, rest) w' ∧
      (refusal? w pool dim spacedim d = none →
        ∃ r, (Record.decoder dim spacedim).run d = .ok (r, rest) ∧ q.ReadAs w pool r w') := by
  cases hd : (Record.decoder dim spacedim).run d with
  | error cause =>
    refine ⟨default, [], w, ?_, fun hnone => ?_⟩
    · rw [refusal?_of_error hd, exec_ofBytes_error hd, decided_some]
    · rw [refusal?_of_error hd] at hnone
      cases hnone
  | ok result =>
    obtain ⟨r, rest⟩ := result
    obtain ⟨q, w', hexec, hread⟩ := exec_ofRecord_eq supplied r
    rw [refusal?_of_ok hd]
    refine ⟨q, rest, w', ?_, fun hnone => ⟨r, rfl, hread hnone⟩⟩
    rw [exec_ofBytes_ok hd, exec_map, hexec]
    cases w.unplaced? pool r.values.length <;> rfl

/-- Records at the front of some bytes are accepted one after the other, each of them where the
one before it ends: the particles made, the world after them, and the bytes left. -/
inductive Accepted (pool : Option Nat) :
    World → Bytes → List (Particle dim spacedim) → World → Bytes → Prop
  | nil (w : World) (d : Bytes) : Accepted pool w d [] w d
  | cons {w w₁ w₂ : World} {d rest left : Bytes} {p : Particle dim spacedim}
      {ps : List (Particle dim spacedim)} :
      (ofBytes pool d).exec w = (.ok (p, rest), w₁) → Accepted pool w₁ rest ps w₂ left →
      Accepted pool w d (p :: ps) w₂ left

/-- A record that was accepted was there to be read, and became a particle. -/
theorem readAs_of_exec (supplied : w.Supplied pool)
    (hexec : (ofBytes pool d).exec w = (.ok (q, rest), w')) :
    refusal? w pool dim spacedim d = none ∧
      ∃ r, (Record.decoder dim spacedim).run d = .ok (r, rest) ∧ q.ReadAs w pool r w' := by
  obtain ⟨p, rest', w₁, heq, hread⟩ := exec_ofBytes_eq supplied dim spacedim d
  rw [hexec] at heq
  cases hcause : refusal? w pool dim spacedim d with
  | some cause =>
    rw [hcause] at heq
    cases heq
  | none =>
    rw [hcause] at heq hread
    cases heq
    exact ⟨rfl, hread rfl⟩

namespace Accepted

/-- The particles made hold slots that were taken for them, and are all of the pool given. -/
theorem fills (accepted : Accepted pool w d ps w₁ left) (supplied : w.Supplied pool) :
    w.Fills (slotsOf ps) w₁ ∧ ∀ p ∈ ps, p.Placed w₁ ∧ p.pool = pool := by
  induction accepted with
  | nil w d => exact ⟨.refl supplied.wellFormed, by simp⟩
  | cons hexec _ ih =>
    obtain ⟨-, r, -, read⟩ := readAs_of_exec supplied hexec
    obtain ⟨fills, hps⟩ := ih (supplied.evolves read.fills.gains.evolves)
    refine ⟨read.fills.trans fills, fun p hp => ?_⟩
    rcases List.mem_cons.mp hp with rfl | hlater
    · exact ⟨read.placed.evolves fills.gains.evolves, read.pool_eq⟩
    · exact hps p hlater

/-- The bytes are the records of the particles made, one after the other, and then what is left. -/
theorem records (accepted : Accepted pool w d ps w₁ left) (supplied : w.Supplied pool) :
    ∃ chunks : List Bytes, d = chunks.flatten ++ left ∧
      List.Forall₂ (fun chunk p => ∃ r, r.encode = .ok chunk ∧ p.toRecord w₁ = .ok r) chunks ps := by
  induction accepted with
  | nil w d => exact ⟨[], rfl, .nil⟩
  | cons hexec later ih =>
    obtain ⟨-, r, hdecode, read⟩ := readAs_of_exec supplied hexec
    have supplied' := supplied.evolves read.fills.gains.evolves
    have gains := (later.fills supplied').1.gains
    obtain ⟨chunk, hchunk, rfl⟩ := Record.run_decoder_eq_ok_iff.mp hdecode
    obtain ⟨chunks, rfl, hchunks⟩ := ih supplied'
    refine ⟨chunk :: chunks, by simp, .cons ⟨r, hchunk, ?_⟩ hchunks⟩
    exact toRecord_of_evolves supplied'.wellFormed gains.evolves
      (fun slot hslot => gains.kept _ _ (read.fills.gains.new slot hslot).2) read.record

/-- Every record takes the fixed part of a record at least. -/
theorem bounded (accepted : Accepted pool w d ps w₁ left) (supplied : w.Supplied pool) :
    ps.length * Header.byteWidth dim spacedim + left.length ≤ d.length := by
  induction accepted with
  | nil w d => simp
  | cons hexec _ ih =>
    obtain ⟨-, r, hdecode, read⟩ := readAs_of_exec supplied hexec
    have hlater := ih (supplied.evolves read.fills.gains.evolves)
    have htaken := Record.takes_record dim spacedim _ r _ hdecode
    rw [List.length_cons, Nat.succ_mul]
    omega

/-- Where there is the same room, the same records are accepted. -/
theorem transfer (accepted : Accepted pool w d ps w₁ left) (supplied : w.Supplied pool)
    (supplied' : v.Supplied pool) (same : SameRoom pool w v) :
    ∃ (qs : List (Particle dim spacedim)) (v₁ : World), Accepted pool v d qs v₁ left ∧
      SameRoom pool w₁ v₁ := by
  induction accepted generalizing v with
  | nil w d => exact ⟨[], v, .nil v d, same⟩
  | cons hexec _ ih =>
    obtain ⟨hnone, r, hdecode, read⟩ := readAs_of_exec supplied hexec
    obtain ⟨q', rest', v', hexec', hread'⟩ := exec_ofBytes_eq supplied' dim spacedim _
    rw [refusal?_of_sameRoom same supplied supplied', hnone] at hexec' hread'
    obtain ⟨r', hdecode', read'⟩ := hread' rfl
    rw [hdecode] at hdecode'
    cases hdecode'
    obtain ⟨qs, v₁, accepted', same'⟩ := ih (supplied.evolves read.fills.gains.evolves)
      (supplied'.evolves read'.fills.gains.evolves) (read.sameRoom read' supplied supplied' same)
    exact ⟨q' :: qs, v₁, .cons hexec' accepted', same'⟩

/-- A reading gets as far as records are accepted. -/
theorem run_decodeOnto (accepted : Accepted pool w d ps w₁ left) (supplied : w.Supplied pool)
    (made : List (Particle dim spacedim)) :
    (decodeOnto pool made d).run w = (decodeOnto pool (made ++ ps) left).run w₁ := by
  induction accepted generalizing made with
  | nil w d => rw [List.append_nil]
  | @cons w w₁ w₂ d rest left p ps hexec _ ih =>
    obtain ⟨-, r, hdecode, read⟩ := readAs_of_exec supplied hexec
    have hrecord : (ofRecord pool r).exec w = (.ok p, w₁) := by
      rw [exec_ofBytes_ok hdecode, exec_map] at hexec
      split at hexec
      · rename_i heq
        cases hexec
        exact heq
      · cases hexec
    rw [run_decodeOnto_ok hdecode, hrecord]
    simp only
    rw [ih (supplied.evolves read.fills.gains.evolves), List.append_assoc, List.singleton_append]

end Accepted

/-- There is a first record that is refused, if any is. -/
theorem exists_accepted (dim spacedim : Nat) (supplied : w.Supplied pool) (d : Bytes) :
    ∃ (ps : List (Particle dim spacedim)) (w₁ : World) (left : Bytes),
      Accepted pool w d ps w₁ left ∧
      (left ≠ [] → ∃ cause, refusal? w₁ pool dim spacedim left = some cause) := by
  -- on the bytes left, each record being shorter than what it was read from
  induction hlength : d.length using Nat.strongRecOn generalizing w d with
  | _ n ih =>
  subst hlength
  obtain ⟨q, rest, w', hexec, hread⟩ := exec_ofBytes_eq supplied dim spacedim d
  cases hcause : refusal? w pool dim spacedim d with
  | some cause => exact ⟨[], w, d, .nil w d, fun _ => ⟨cause, hcause⟩⟩
  | none =>
    rw [hcause, decided_none] at hexec
    obtain ⟨r, hdecode, read⟩ := hread hcause
    obtain ⟨ps, w₁, left, accepted, hstop⟩ := ih rest.length (Record.length_lt_of_decode hdecode)
      (supplied.evolves read.fills.gains.evolves) rest rfl
    exact ⟨q :: ps, w₁, left, .cons hexec accepted, hstop⟩

/-! ## Giving up -/

theorem exec_ofBytes_refused {cause : ParticleError} (supplied : w.Supplied pool)
    (hcause : refusal? w pool dim spacedim d = some cause) :
    (ofBytes pool d : Action ParticleError (Particle dim spacedim × Bytes)).exec w =
      (Attempt.refuse cause, w) := by
  obtain ⟨q, rest, w', hexec, -⟩ := exec_ofBytes_eq supplied dim spacedim d
  rw [hexec, hcause, decided_some]

/-- A reading stops where a record is refused. -/
theorem run_decodeOnto_refused {cause : ParticleError} (supplied : w.Supplied pool) (hne : d ≠ [])
    (hcause : refusal? w pool dim spacedim d = some cause) :
    (decodeOnto pool made d).run w = (giveUp made (.refused cause) d).run w := by
  cases hd : (Record.decoder dim spacedim).run d with
  | error cause' =>
    rw [refusal?_of_error hd] at hcause
    cases hcause
    exact run_decodeOnto_error hne hd
  | ok result =>
    obtain ⟨r, rest⟩ := result
    rw [refusal?_of_ok hd] at hcause
    obtain ⟨q, w', hexec, -⟩ := exec_ofRecord_eq supplied r
    rw [run_decodeOnto_ok hd, hexec, hcause]
    rfl

/-- What becomes of the pools when a reading has taken `taken` slots and given them back. -/
structure Undone (w : World) (pool : Option Nat) (taken : Nat) (w' : World) : Prop where
  evolves : w.Evolves w'
  /-- Every handle shows what it showed, and no other one shows anything. -/
  contents_eq : ∀ i h, w'.contents i h = w.contents i h
  live_eq : ∀ i pl pl', w.pool? i = some pl → w'.pool? i = some pl' → pl'.live = pl.live
  totalSlots_eq : ∀ i pl pl', w.pool? i = some pl → w'.pool? i = some pl' →
    pl'.totalSlots = if pool = some i then max pl.totalSlots (pl.live + taken) else pl.totalSlots

/-- There is as much room after a reading that was undone as before it. -/
theorem Undone.sameRoom (undone : Undone w pool n w') : SameRoom pool w w' := by
  intro i pl pl' _ hp hp'
  obtain ⟨_, hq, -, hconfig, hreaders, hwriters, -⟩ := undone.evolves.pool i pl hp
  rw [hp'] at hq
  cases hq
  exact ⟨hconfig, undone.live_eq i pl pl' hp hp',
    by rw [Pool.isViewed, hreaders, hwriters, Pool.isViewed]⟩

end Batch

namespace Particle

/-- Giving a slot back leaves every table as long as it is. -/
theorem totalSlots_worldWithout {pl pl' : Pool} (hp : w.pool? i = some pl)
    (hp' : (q.worldWithout w).pool? i = some pl') : pl'.totalSlots = pl.totalSlots := by
  have hsame : ∀ (_ : w.pool? i = some pl'), pl'.totalSlots = pl.totalSlots := by
    intro heq
    rw [hp] at heq
    cases heq
    rfl
  unfold worldWithout at hp'
  split at hp'
  · exact hsame hp'
  · rename_i j h _
    split at hp'
    · by_cases hj : i = j
      · subst hj
        rw [without_eq hp, pool?_setPool_self (by simp [hp])] at hp'
        cases hp'
        exact Pool.totalSlots_released
      · refine hsame ?_
        unfold World.without at hp'
        split at hp'
        · rwa [pool?_setPool_of_ne hj] at hp'
        · exact hp'
    · exact hsame hp'

theorem totalSlots_worldWithoutAll {pl pl' : Pool} (wf : w.WellFormed)
    (placed : ∀ p ∈ ps, p.Placed w) (hp : w.pool? i = some pl)
    (hp' : (worldWithoutAll w ps).pool? i = some pl') : pl'.totalSlots = pl.totalSlots := by
  induction ps generalizing w pl with
  | nil =>
    rw [worldWithoutAll, hp] at hp'
    cases hp'
    rfl
  | cons p rest ih =>
    have e := (trade_without [] wf (placed p List.mem_cons_self)).evolves
    obtain ⟨pl₁, hp₁, -⟩ := e.pool i pl hp
    rw [worldWithoutAll] at hp'
    rw [ih (e.wellFormed wf) (fun q hq => (placed q (List.mem_cons_of_mem p hq)).evolves e) hp₁ hp',
      totalSlots_worldWithout hp hp₁]

end Particle

namespace Batch

open Particle

/-- The slots of the particles made are given back, each of them once. -/
theorem Accepted.loses (accepted : Accepted pool w d ps w₁ left) (supplied : w.Supplied pool) :
    w₁.Loses (slotsOf ps) (worldWithoutAll w₁ ps) := by
  obtain ⟨fills, hps⟩ := accepted.fills supplied
  have hloses := loses_worldWithoutAll (supplied.evolves fills.gains.evolves).wellFormed
    (fun p hp => (hps p hp).1) (fun slot hslot => (fills.gains.new slot hslot).2) (.refl ps)
  rwa [List.Nodup.dedup fills.gains.nodup] at hloses

/-- Nothing but the length of a table tells of particles that were made and dropped. -/
theorem Accepted.undone (accepted : Accepted pool w d ps w₁ left) (supplied : w.Supplied pool) :
    Undone w pool (ps.countP (·.hasProperties)) (worldWithoutAll w₁ ps) := by
  obtain ⟨fills, hps⟩ := accepted.fills supplied
  have wf₁ := (supplied.evolves fills.gains.evolves).wellFormed
  have loses := accepted.loses supplied
  have hcount := countP_slotsOf (fun q hq => (hps q hq).2)
  have between : ∀ i pl, w.pool? i = some pl → ∃ pl₁, w₁.pool? i = some pl₁ := fun i pl hp => by
    obtain ⟨pl₁, hp₁, -⟩ := fills.gains.evolves.pool i pl hp
    exact ⟨pl₁, hp₁⟩
  refine ⟨fills.gains.evolves.trans loses.evolves, fills.undone loses fun _ => Iff.rfl,
    fun i pl pl' hp hp' => ?_, fun i pl pl' hp hp' => ?_⟩
  · obtain ⟨pl₁, hp₁⟩ := between i pl hp
    have hgain := fills.gains.live_eq i pl pl₁ hp hp₁
    have hloss := loses.live_eq i pl₁ pl' hp₁ hp'
    omega
  · obtain ⟨pl₁, hp₁⟩ := between i pl hp
    rw [totalSlots_worldWithoutAll wf₁ (fun p hp => (hps p hp).1) hp₁ hp',
      fills.totalSlots_eq i pl pl₁ hp hp₁, hcount]
    have hle := (supplied.wellFormed.pool i pl hp).live_le
    split
    · rfl
    · omega

/-- What a reading comes to that stops at a record: the particles made before it are dropped. -/
theorem Accepted.run_refused {cause : ParticleError} (accepted : Accepted pool w d ps w₁ left)
    (supplied : w.Supplied pool) (hne : left ≠ [])
    (hcause : refusal? w₁ pool dim spacedim left = some cause) :
    (decode pool d : StateM World (Reading dim spacedim)).run w =
      (⟨Attempt.refuse cause, left⟩, worldWithoutAll w₁ ps) := by
  obtain ⟨fills, hps⟩ := accepted.fills supplied
  have supplied₁ := supplied.evolves fills.gains.evolves
  unfold decode
  rw [accepted.run_decodeOnto supplied, List.nil_append, run_decodeOnto_refused supplied₁ hne hcause,
    run_giveUp supplied₁.wellFormed fun p hp => (hps p hp).1]
  rfl

/-! ## All or nothing -/

/-- A reading that is refused at a record: the particles `ps` were made of the records before it,
in the world `w₁`, and the bytes from that record on are `left`. -/
structure RefusedAt (w : World) (pool : Option Nat) (d : Bytes) (ps : List (Particle dim spacedim))
    (w₁ : World) (left : Bytes) (cause : ParticleError) (w' : World) : Prop where
  accepted : Accepted pool w d ps w₁ left
  left_ne_nil : left ≠ []
  refused : (ofBytes pool left : Action ParticleError (Particle dim spacedim × Bytes)).exec w₁ =
    (Attempt.refuse cause, w₁)
  run_eq : (decode pool d : StateM World (Reading dim spacedim)).run w =
    (⟨Attempt.refuse cause, left⟩, w')
  undone : Undone w pool (ps.countP (·.hasProperties)) w'
  /-- The slots taken were live, and are not live any more. -/
  released : ∀ slot ∈ slotsOf ps,
    (w₁.contents slot.1 slot.2).isSome ∧ w'.contents slot.1 slot.2 = none
  /-- The same bytes are refused again for the same cause at the same record. -/
  again : ((decode pool d : StateM World (Reading dim spacedim)).run w').1 =
    ⟨Attempt.refuse cause, left⟩

/-- How a reading of any bytes ends. -/
structure AllOrNothing (dim spacedim : Nat) (w : World) (pool : Option Nat) (d : Bytes) : Prop where
  /-- It succeeds if the bytes are records that are accepted one after the other, and only then:
  with the particles in order, and no bytes left. -/
  ok_iff : ∀ (made : List (Particle dim spacedim)) (rest : Bytes) (w' : World),
    (decode pool d).run w = (⟨.ok made, rest⟩, w') ↔
      rest = [] ∧ ∃ w₁, Accepted pool w d made w₁ [] ∧
        w' = { w₁ with events := w₁.events ++ [.batchDecoded made.length] }
  /-- Otherwise it stops at the first record that is refused. -/
  refused : (¬ ∃ (made : List (Particle dim spacedim)) (w₁ : World), Accepted pool w d made w₁ []) →
    ∃ (ps : List (Particle dim spacedim)) (w₁ : World) (left : Bytes) (cause : ParticleError)
      (w' : World), RefusedAt w pool d ps w₁ left cause w'
  /-- Records that are accepted are the front of the bytes, and the particles show what they say. -/
  records : ∀ (ps : List (Particle dim spacedim)) (w₁ : World) (left : Bytes),
    Accepted pool w d ps w₁ left → ∃ chunks : List Bytes, d = chunks.flatten ++ left ∧
      List.Forall₂ (fun chunk p => ∃ r, r.encode = .ok chunk ∧ p.toRecord w₁ = .ok r) chunks ps
  /-- There are no more records than 12 bytes for each. -/
  bounded : ∀ (ps : List (Particle dim spacedim)) (w₁ : World) (left : Bytes),
    Accepted pool w d ps w₁ left → ps.length * 12 + left.length ≤ d.length

theorem twelve_le_byteWidth (dim spacedim : Nat) : 12 ≤ Header.byteWidth dim spacedim := by
  simp only [Header.byteWidth, ParticleId.byteWidth, Header.countWidth]
  omega

/-- A reading of records that are all accepted succeeds. -/
theorem Accepted.run_ok (accepted : Accepted pool w d ps w₁ []) (supplied : w.Supplied pool) :
    (decode pool d).run w =
      (⟨.ok ps, []⟩, { w₁ with events := w₁.events ++ [.batchDecoded ps.length] }) := by
  unfold decode
  rw [accepted.run_decodeOnto supplied, List.nil_append, run_decodeOnto_nil]

theorem Accepted.refusedAt {cause : ParticleError} (accepted : Accepted pool w d ps w₁ left)
    (supplied : w.Supplied pool) (hne : left ≠ [])
    (hcause : refusal? w₁ pool dim spacedim left = some cause) :
    RefusedAt w pool d ps w₁ left cause (worldWithoutAll w₁ ps) := by
  have supplied₁ := supplied.evolves (accepted.fills supplied).1.gains.evolves
  have undone := accepted.undone supplied
  have supplied' := supplied.evolves undone.evolves
  obtain ⟨qs, v₁, accepted', same⟩ := accepted.transfer supplied supplied' undone.sameRoom
  have supplied₁' := supplied'.evolves (accepted'.fills supplied').1.gains.evolves
  have hcause' : refusal? v₁ pool dim spacedim left = some cause := by
    rw [refusal?_of_sameRoom same supplied₁ supplied₁', hcause]
  exact
    { accepted
      left_ne_nil := hne
      refused := exec_ofBytes_refused supplied₁ hcause
      run_eq := accepted.run_refused supplied hne hcause
      undone
      released := (accepted.loses supplied).gone
      again := by rw [accepted'.run_refused supplied' hne hcause'] }

theorem allOrNothing (dim spacedim : Nat) (supplied : w.Supplied pool) (d : Bytes) :
    AllOrNothing dim spacedim w pool d where
  ok_iff made rest w' := by
    constructor
    · intro hrun
      obtain ⟨ps, w₁, left, accepted, hstop⟩ := exists_accepted dim spacedim supplied d
      by_cases hne : left = []
      · subst hne
        rw [accepted.run_ok supplied] at hrun
        cases hrun
        exact ⟨rfl, w₁, accepted, rfl⟩
      · obtain ⟨cause, hcause⟩ := hstop hne
        rw [accepted.run_refused supplied hne hcause] at hrun
        cases hrun
    · rintro ⟨rfl, w₁, accepted, rfl⟩
      exact accepted.run_ok supplied
  refused hno := by
    obtain ⟨ps, w₁, left, accepted, hstop⟩ := exists_accepted dim spacedim supplied d
    by_cases hne : left = []
    · subst hne
      exact absurd ⟨ps, w₁, accepted⟩ hno
    · obtain ⟨cause, hcause⟩ := hstop hne
      exact ⟨ps, w₁, left, cause, _, accepted.refusedAt supplied hne hcause⟩
  records ps w₁ left accepted := accepted.records supplied
  bounded ps w₁ left accepted := by
    have hbytes := accepted.bounded supplied
    have hwidth := Nat.mul_le_mul_left ps.length (twelve_le_byteWidth dim spacedim)
    omega

end Batch

namespace Session

open Batch

/-- In a session any pool can be given that is there. -/
theorem Sound.supplied {sole : Prop} {s : Session dim spacedim} (sound : s.Sound sole)
    (hpool : ∀ i, pool = some i → (s.world.pool? i).isSome) : s.world.Supplied pool :=
  ⟨sound.wellFormed, fun i hi => Option.isSome_iff_exists.mp (hpool i hi)⟩

/-- **Any bytes are read as a whole or not at all.** After any run of steps a buffer of any bytes
is read into particles without a pool or with any pool there is: all of its records become
particles, or the pools hold the slots that they held before. -/
theorem allOrNothing_run (steps : List (Step dim spacedim)) (pool : Option Nat) (d : Bytes)
    (hpool : ∀ i, pool = some i →
      ((run ({} : Session dim spacedim) steps).2.world.pool? i).isSome) :
    AllOrNothing dim spacedim (run ({} : Session dim spacedim) steps).2.world pool d :=
  Batch.allOrNothing dim spacedim
    ⟨(sound_reached steps).wellFormed, fun i hi => Option.isSome_iff_exists.mp (hpool i hi)⟩ d

/-- Two records for a pool with room for one: the second is refused. -/
theorem allOrNothing_run_of_full :
    let steps : List (Step 0 0) := [.makePool { stride := 1, maxSlots := some 1 }]
    let record : Bytes := List.replicate 8 0 ++ [1, 0, 0, 0] ++ List.replicate 8 5
    let w := (run {} steps).2.world
    (∀ i, some 0 = some i → (w.pool? i).isSome) ∧ AllOrNothing 0 0 w (some 0) (record ++ record) ∧
      ∃ (ps : List (Particle 0 0)) (w₁ w' : World),
        RefusedAt w (some 0) (record ++ record) ps w₁ record (.pool (.outOfResources 2 1)) w' := by
  intro steps record w
  have hpool : ∀ i, some 0 = some i → (w.pool? i).isSome := by
    intro i hi
    cases hi
    rfl
  refine ⟨hpool, allOrNothing_run steps (some 0) (record ++ record) hpool, ?_⟩
  have supplied : w.Supplied (some 0) :=
    ⟨(sound_reached steps).wellFormed, fun i hi => Option.isSome_iff_exists.mp (hpool i hi)⟩
  have hresult : ((Particle.ofBytes (some 0) (record ++ record)).exec w).1 =
      .ok ((⟨⟨[], rfl⟩, ⟨[], rfl⟩, ⟨0⟩, some 0, ⟨⟨1⟩, 0, 0⟩⟩ : Particle 0 0), record) := by
    decide +kernel
  have hcause : refusal? (((Particle.ofBytes (some 0) (record ++ record)) :
      Action ParticleError (Particle 0 0 × Bytes)).exec w).2 (some 0) 0 0 record =
        some (.pool (.outOfResources 2 1)) := by
    decide +kernel
  revert hresult hcause
  rcases hexec : (Particle.ofBytes (some 0) (record ++ record)).exec w with ⟨result, w₁⟩
  rintro rfl hcause
  have hne : record ≠ [] := by decide
  exact ⟨_, w₁, _, (Accepted.cons hexec (.nil w₁ record)).refusedAt supplied hne hcause⟩

end Session

end ParticleStore
