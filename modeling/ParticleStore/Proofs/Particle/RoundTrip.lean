/-
ParticleStore.Proofs.Particle.RoundTrip — a particle from the record of another.

The record of a particle says what the particle shows: its coordinates, its id and its
values. A particle made of the record shows the same in the world where it is made
(`SameContents`), although its values lie in a slot of another pool, or in another slot
of the same pool, and every slot that was live shows what it showed
(`exec_ofBytes_encode`). What a particle shows depends on its own slot only, so it goes on
showing it while slots of others come and go (`SameContents.stable`).

A particle may hold a slot without values. Its record does not differ from that of a
particle without a slot, and no slot is taken for it.
-/
import ParticleStore.Proofs.Record.RoundTrip
import ParticleStore.Proofs.Session.Sound
import ParticleStore.Proofs.World.Growth

namespace ParticleStore

open LittleEndian ParticleStore.Action World

/-- No view of the pool is open, and its limit leaves room for `n` more slots. -/
structure Pool.HasRoom (pl : Pool) (n : Nat) : Prop where
  unviewed : pl.isViewed = false
  live_add_le : pl.live + n ≤ pl.config.slotLimit

/-- There is a place for a record with `n` values: no pool is needed for none. -/
def World.HasPlace (w : World) (target : Option Nat) (n : Nat) : Prop :=
  n ≠ 0 → ∃ i pl, target = some i ∧ w.pool? i = some pl ∧ pl.stride = n ∧ pl.HasRoom 1

namespace Particle

variable {dim spacedim : Nat} {w w' w'' : World} {i : Nat} {pl : Pool} {h : Handle}
  {p q : Particle dim spacedim} {r : Record dim spacedim} {values : List Scalar}
  {bytes rest : Bytes} {target : Option Nat}

/-! ## What a particle shows -/

/-- The particle's values; none if it holds no slot. -/
def listed (w : World) (p : Particle dim spacedim) : Attempt ParticleError (List Scalar) :=
  if p.hasProperties then p.values w else .ok []

/-- Two particles, each in a world of its own, that show the same. -/
structure SameContents (w : World) (p : Particle dim spacedim) (w' : World)
    (q : Particle dim spacedim) : Prop where
  location_eq : q.location = p.location
  reference_eq : q.reference = p.reference
  id_eq : q.id = p.id
  propertyCount_eq : q.propertyCount w' = p.propertyCount w
  /-- The values can be read, and are the same. -/
  listed_eq : ∃ values, p.listed w = .ok values ∧ q.listed w' = .ok values

theorem listed_of_none (hs : p.slot? = none) : p.listed w = .ok [] := by
  rw [listed, hasProperties, hs]
  rfl

theorem listed_of_slot (hs : p.slot? = some (i, h)) : p.listed w = p.values w := by
  rw [listed, hasProperties, hs]
  rfl

/-- Values that can be read are the ones that the slot shows, and nobody writes there. -/
theorem listed_eq_ok_iff (wf : w.WellFormed) (hs : p.slot? = some (i, h)) :
    p.listed w = .ok values ↔
      ∃ pl, w.pool? i = some pl ∧ pl.writers = 0 ∧ pl.contents h = some values := by
  rw [listed_of_slot hs]
  cases hp : w.pool? i with
  | none =>
    have hhalt : p.values w = Attempt.halt .unknownPool := by
      simp only [Particle.values, hs, World.pool, hp]
      rfl
    rw [hhalt]
    simp [Attempt.halt]
  | some pl =>
    have wfp := wf.pool i pl hp
    rw [values_of_slot hs hp wfp, Attempt.decided_eq_ok_iff, Option.map_eq_none_iff,
      Option.or_eq_none_iff, Pool.written?_eq_none_iff]
    constructor
    · rintro ⟨⟨hgood, hwriters⟩, rfl⟩
      exact ⟨pl, rfl, hwriters, Pool.contents_eq_block wfp hgood⟩
    · rintro ⟨_, heq, hwriters, hshown⟩
      cases heq
      have hgood : pl.flawed? h = none :=
        Pool.flawed?_eq_none_iff_contents.mpr (by rw [hshown]; rfl)
      refine ⟨⟨hgood, hwriters⟩, ?_⟩
      rw [Pool.contents_eq_block wfp hgood] at hshown
      exact Option.some.inj hshown

/-- A slot whose values can be read is live. -/
theorem isSome_contents_of_listed (wf : w.WellFormed) (hlisted : p.listed w = .ok values) :
    ∀ slot ∈ p.slots, (w.contents slot.1 slot.2).isSome := by
  intro slot hslot
  cases hs : p.slot? with
  | none =>
    rw [slots_of_none hs] at hslot
    cases hslot
  | some held =>
    rw [slots_of_slot hs, List.mem_singleton] at hslot
    obtain ⟨pl, hp, -, hshown⟩ := (listed_eq_ok_iff wf hs).mp hlisted
    rw [hslot, contents_of_pool hp, hshown]
    rfl

/-- A particle shows as many values as it counts. -/
theorem length_of_listed (wf : w.WellFormed) (hlisted : p.listed w = .ok values) :
    values.length = p.propertyCount w := by
  cases hs : p.slot? with
  | none =>
    rw [listed_of_none hs] at hlisted
    cases hlisted
    rw [propertyCount_of_none hs, List.length_nil]
  | some held =>
    obtain ⟨pl, hp, -, hshown⟩ := (listed_eq_ok_iff wf hs).mp hlisted
    rw [propertyCount_of_slot hs hp, Pool.length_contents (wf.pool _ pl hp) hshown]

/-- What a particle shows depends on its own slot only. -/
theorem listed_of_evolves (wf : w.WellFormed) (e : w.Evolves w')
    (hkept : ∀ slot ∈ p.slots, w'.contents slot.1 slot.2 = w.contents slot.1 slot.2)
    (hlisted : p.listed w = .ok values) : p.listed w' = .ok values := by
  cases hs : p.slot? with
  | none =>
    rw [listed_of_none hs] at hlisted ⊢
    exact hlisted
  | some held =>
    obtain ⟨pl, hp, hwriters, hshown⟩ := (listed_eq_ok_iff wf hs).mp hlisted
    obtain ⟨pl', hp', -, -, -, hsame, -⟩ := e.pool _ pl hp
    have hcontents := hkept held (by rw [slots_of_slot hs]; exact List.mem_singleton_self _)
    rw [contents_of_pool hp', contents_of_pool hp, hshown] at hcontents
    exact (listed_eq_ok_iff (e.wellFormed wf) hs).mpr ⟨pl', hp', hsame.trans hwriters, hcontents⟩

/-- A particle counts the values of its pool's slots, which stay as many. -/
theorem propertyCount_of_evolves (e : w.Evolves w') : p.propertyCount w' = p.propertyCount w := by
  cases hs : p.slot? with
  | none => rw [propertyCount_of_none hs, propertyCount_of_none hs]
  | some held =>
    cases hp : w.pool? held.1 with
    | some pl =>
      obtain ⟨pl', hp', -, hconfig, -⟩ := e.pool _ pl hp
      rw [propertyCount_of_slot hs hp, propertyCount_of_slot hs hp', Pool.stride, hconfig, Pool.stride]
    | none =>
      have hnone : w'.pool? held.1 = none := by
        rw [pool?, List.getElem?_eq_none_iff] at hp ⊢
        rwa [e.length_eq]
      simp only [propertyCount, hs, hp, hnone]

/-- Pools keep their ids. -/
theorem poolId?_of_evolves {q : Particle dim spacedim} (e : w.Evolves w') (hpool : q.pool = p.pool) :
    q.poolId? w' = p.poolId? w := by
  rw [poolId?, poolId?, hpool]
  cases p.pool with
  | none => rfl
  | some i =>
    simp only [Option.bind_some]
    cases hp : w.pool? i with
    | some pl =>
      obtain ⟨pl', hp', hid, -⟩ := e.pool i pl hp
      rw [hp', Option.map_some, Option.map_some, hid]
    | none =>
      have hnone : w'.pool? i = none := by
        rw [pool?, List.getElem?_eq_none_iff] at hp ⊢
        rwa [e.length_eq]
      rw [hnone]

/-- What is read from a live slot depends on what the slot shows, whichever handle names it. -/
theorem values_of_evolves {q : Particle dim spacedim} {i : Nat} {h k : Handle} (wf : w.WellFormed)
    (e : w.Evolves w') (hp : p.slot? = some (i, h)) (hq : q.slot? = some (i, k))
    (hlive : (w.contents i h).isSome) (hsame : w'.contents i k = w.contents i h) :
    q.values w' = p.values w := by
  obtain ⟨pl, hpl, hshown⟩ := exists_pool?_of_contents hlive
  obtain ⟨pl', hpl', -, -, -, hwriters, -⟩ := e.pool i pl hpl
  rw [contents_of_pool hpl', contents_of_pool hpl] at hsame
  have wfp := wf.pool i pl hpl
  have wfp' := (e.wellFormed wf).pool i pl' hpl'
  have hgood := Pool.flawed?_eq_none_iff_contents.mpr hshown
  have hgood' := Pool.flawed?_eq_none_iff_contents.mpr (hsame ▸ hshown)
  rw [Pool.contents_eq_block wfp hgood, Pool.contents_eq_block wfp' hgood'] at hsame
  rw [values_of_slot hp hpl wfp, values_of_slot hq hpl' wfp', hgood, hgood', Option.some.inj hsame,
    Pool.written?, hwriters, Pool.written?]

namespace SameContents

/-- A particle goes on showing the same while its own slot is left alone. -/
theorem stable (same : p.SameContents w w' q) (wf : w'.WellFormed) (e : w'.Evolves w'')
    (hkept : ∀ slot ∈ q.slots, w''.contents slot.1 slot.2 = w'.contents slot.1 slot.2) :
    p.SameContents w w'' q where
  location_eq := same.location_eq
  reference_eq := same.reference_eq
  id_eq := same.id_eq
  propertyCount_eq := (propertyCount_of_evolves e).trans same.propertyCount_eq
  listed_eq := by
    obtain ⟨values, hp, hq⟩ := same.listed_eq
    exact ⟨values, hp, listed_of_evolves wf e hkept hq⟩

end SameContents

/-! ## The record of a particle -/

theorem toRecord_eq :
    p.toRecord w = (p.listed w).map fun values => ⟨p.location, p.reference, p.id, values⟩ := by
  unfold toRecord listed
  cases p.hasProperties with
  | false => rfl
  | true => cases p.values w <;> rfl

theorem toRecord_eq_ok_iff :
    p.toRecord w = .ok r ↔
      p.location = r.location ∧ p.reference = r.reference ∧ p.id = r.id ∧
        p.listed w = .ok r.values := by
  obtain ⟨location, reference, id, values⟩ := r
  rw [toRecord_eq]
  cases p.listed w <;> simp [Except.map]

theorem listed_of_toRecord (hrecord : p.toRecord w = .ok r) : p.listed w = .ok r.values :=
  (toRecord_eq_ok_iff.mp hrecord).2.2.2

/-- The record stays the same while the particle's own slot is left alone. -/
theorem toRecord_of_evolves (wf : w.WellFormed) (e : w.Evolves w')
    (hkept : ∀ slot ∈ p.slots, w'.contents slot.1 slot.2 = w.contents slot.1 slot.2)
    (hrecord : p.toRecord w = .ok r) : p.toRecord w' = .ok r := by
  obtain ⟨hlocation, hreference, hid, hlisted⟩ := toRecord_eq_ok_iff.mp hrecord
  exact toRecord_eq_ok_iff.mpr
    ⟨hlocation, hreference, hid, listed_of_evolves wf e hkept hlisted⟩

/-- A particle is written if its values can be read and its record says how many there are. -/
theorem encode_eq_ok_iff :
    p.encode w = .ok bytes ↔ ∃ r, p.toRecord w = .ok r ∧ r.encode = .ok bytes := by
  unfold encode
  cases p.toRecord w with
  | error failure => simp [bind, Except.bind]
  | ok r => cases hr : r.encode <;> simp [bind, Except.bind, pure, Except.pure, hr, Attempt.refuse]

/-- The record of a particle that was written is read from the front of any bytes. -/
theorem exists_record_of_encode (henc : p.encode w = .ok bytes) :
    ∃ r, p.toRecord w = .ok r ∧
      ∀ rest, (Record.decoder dim spacedim).run (bytes ++ rest) = .ok (r, rest) := by
  obtain ⟨r, hrecord, hbytes⟩ := encode_eq_ok_iff.mp henc
  exact ⟨r, hrecord, fun rest => Record.run_decoder_eq_ok_iff.mpr ⟨bytes, hbytes, rfl⟩⟩

/-- Particles with one record show the same. -/
theorem sameContents_of_toRecord (wf : w.WellFormed) (wf' : w'.WellFormed)
    (hp : p.toRecord w = .ok r) (hq : q.toRecord w' = .ok r) : p.SameContents w w' q := by
  obtain ⟨hlocation, hreference, hid, hlisted⟩ := toRecord_eq_ok_iff.mp hp
  obtain ⟨hlocation', hreference', hid', hlisted'⟩ := toRecord_eq_ok_iff.mp hq
  exact
    { location_eq := hlocation'.trans hlocation.symm
      reference_eq := hreference'.trans hreference.symm
      id_eq := hid'.trans hid.symm
      propertyCount_eq := by rw [← length_of_listed wf' hlisted', length_of_listed wf hlisted]
      listed_eq := ⟨r.values, hlisted, hlisted'⟩ }

/-! ## A particle from a record -/

/-- A new particle with `n` values of the pool at the position `target`, if it needs a pool. -/
structure MadeNew (w : World) (target : Option Nat) (n : Nat) (w' : World)
    (q : Particle dim spacedim) : Prop where
  pool_eq : q.pool = target
  gains : w.Gains q.slots w'
  count_eq : ∀ i, (q.slots.countP fun slot => slot.1 == i) = if target = some i ∧ n ≠ 0 then 1 else 0
  handle_ne : ∀ j k, (w.contents j k).isSome → q.handle ≠ k

theorem slot?_of_invalid (hhandle : q.handle = .invalid) : q.slot? = none :=
  Option.toList_eq_nil_iff.mp (slots_of_invalid hhandle)

/-- No slot is taken for a particle without values. -/
theorem madeNew_of_invalid (wf : w.WellFormed) (hpool : q.pool = target)
    (hhandle : q.handle = .invalid) : q.MadeNew w target 0 w where
  pool_eq := hpool
  gains := by
    rw [slots_of_invalid hhandle]
    exact .refl w
  count_eq i := by
    rw [slots_of_invalid hhandle, if_neg (fun hne => hne.2 rfl)]
    rfl
  handle_ne j k hsome := by
    obtain ⟨pl, hp, hshown⟩ := exists_pool?_of_contents hsome
    obtain ⟨values, hvalues⟩ := Option.isSome_iff_exists.mp hshown
    have hvalid := Pool.isValid_of_contents (wf.pool j pl hp) hvalues
    rintro rfl
    rw [hhandle] at hvalid
    simp [Handle.isValid] at hvalid

/-- A slot is taken for a particle with values. -/
theorem madeNew_of_update {n : Nat} (wf : w.WellFormed) (hp : w.pool? i = some pl)
    (hnone : w.contents i q.handle = none) (u : w.Update i q.handle (some values) w')
    (hpool : q.pool = some i) (hid : q.handle.pool = pl.id) (hn : n ≠ 0) :
    q.MadeNew w (some i) n w' := by
  have hslots : q.slots = [(i, q.handle)] :=
    slots_of_pool hpool ((wf.pool i pl hp).isValid_of_pool hid)
  refine ⟨hpool, ?_, fun j => ?_, fun j k hsome => ?_⟩
  · rw [hslots]
    exact .of_update hnone u
  · rw [hslots]
    by_cases hj : i = j
    · simp [hj, hn]
    · simp [hj]
  · exact ne_handle_of_contents wf hp hid hnone hsome

/-- A record that can be placed becomes a particle that shows it. -/
theorem exec_ofRecord_of_hasPlace (wf : w.WellFormed) (r : Record dim spacedim)
    (hplace : w.HasPlace target r.values.length) :
    ∃ q w', (ofRecord target r).exec w = (.ok q, w') ∧ q.toRecord w' = .ok r ∧
      q.MadeNew w target r.values.length w' := by
  by_cases hv : r.values = []
  · refine ⟨_, w, exec_ofRecord_of_empty hv, ?_, ?_⟩
    · rw [toRecord_eq_ok_iff, listed_of_none (slot?_of_invalid rfl), hv]
      exact ⟨rfl, rfl, rfl, rfl⟩
    · rw [hv]
      exact madeNew_of_invalid wf rfl rfl
  · obtain ⟨i, pl, rfl, hp, hstride, hroom⟩ := hplace (by simpa using hv)
    have wfp := wf.pool i pl hp
    have hnone : (mismatch? r.values.length pl.stride).or
        ((pl.viewed?.or pl.full?).map ParticleError.pool) = none := by
      rw [mismatch?_eq_none_iff.mpr hstride.symm, Pool.viewed?_eq_none_iff.mpr hroom.unviewed,
        Pool.full?_eq_none_iff.mpr hroom.live_add_le]
      rfl
    have hfresh : w.contents i pl.nextHandle = none := by
      rw [contents_of_pool hp, Pool.contents_nextHandle wfp]
    have hfill := Pool.update_filled wfp hroom.unviewed hroom.live_add_le hstride.symm
    have u := update_setPool hp hfill
    refine ⟨_, _, by rw [exec_ofRecord_of_pool hv hp wfp, hnone, decided_none], ?_,
      madeNew_of_update wf hp hfresh u rfl rfl (by simpa using hv)⟩
    have hs : { bare r.location r.reference r.id with
        pool := some i, handle := pl.nextHandle }.slot? = some (i, pl.nextHandle) :=
      slot?_eq_some_iff.mpr ⟨rfl, rfl, wfp.isValid_of_pool rfl⟩
    have hwriters : (pl.filled r.values).writers = 0 := by
      have hunviewed := hroom.unviewed
      simp only [Pool.isViewed, decide_eq_false_iff_not] at hunviewed
      rw [hfill.writers_eq]
      omega
    rw [toRecord_eq_ok_iff, listed_eq_ok_iff (u.wellFormed wf) hs]
    exact ⟨rfl, rfl, rfl, _, pool?_setPool_self (by simp [hp]), hwriters, hfill.contents_self⟩

/-- What a particle is that was made of the record of another, and what becomes of the pools. -/
structure Restored (w : World) (p : Particle dim spacedim) (target : Option Nat) (w' : World)
    (q : Particle dim spacedim) : Prop where
  same : p.SameContents w w' q
  pool_eq : q.pool = target
  evolves : w.Evolves w'
  /-- Every slot that was live shows the values that it showed. -/
  kept : ∀ j k, (w.contents j k).isSome → w'.contents j k = w.contents j k
  /-- So does the first particle. -/
  listed_eq : p.listed w' = p.listed w
  /-- One slot of the new particle's pool is taken if there are values, and none otherwise. -/
  live_eq : ∀ i pl pl', w.pool? i = some pl → w'.pool? i = some pl' →
    pl'.live = pl.live + if target = some i ∧ p.propertyCount w ≠ 0 then 1 else 0
  /-- The new handle names no slot that was live. -/
  handle_ne : ∀ j k, (w.contents j k).isSome → q.handle ≠ k

/-- A particle is restored from the front of the bytes, and what follows its record is left. -/
theorem exec_ofBytes_encode (wf : w.WellFormed) (henc : p.encode w = .ok bytes) (rest : Bytes)
    (hplace : w.HasPlace target (p.propertyCount w)) :
    ∃ q w', (ofBytes target (bytes ++ rest)).exec w = (.ok (q, rest), w') ∧
      p.Restored w target w' q := by
  obtain ⟨r, hrecord, hdecode⟩ := exists_record_of_encode henc
  have hlisted := listed_of_toRecord hrecord
  have hcount : r.values.length = p.propertyCount w := length_of_listed wf hlisted
  rw [← hcount] at hplace
  obtain ⟨q, w', hexec, hrecord', made⟩ := exec_ofRecord_of_hasPlace wf r hplace
  have gains := made.gains
  have hkept : p.listed w' = .ok r.values :=
    listed_of_evolves wf gains.evolves
      (fun slot hslot => gains.kept _ _ (isSome_contents_of_listed wf hlisted slot hslot)) hlisted
  refine ⟨q, w', by rw [exec_ofBytes_ok (hdecode rest), exec_map, hexec], ?_⟩
  exact
    { same := sameContents_of_toRecord wf (gains.evolves.wellFormed wf) hrecord hrecord'
      pool_eq := made.pool_eq
      evolves := gains.evolves
      kept := gains.kept
      listed_eq := hkept.trans hlisted.symm
      live_eq := fun i pl pl' hp hp' => by
        rw [gains.live_eq i pl pl' hp hp', made.count_eq, hcount]
      handle_ne := made.handle_ne }

end Particle

namespace Session

open Particle

variable {dim spacedim : Nat}

/-- **Writing and reading a particle restores it.** After any run of steps a particle that can be
written is restored from its bytes, with a slot of any pool that has a place for its values. -/
theorem restored_run (steps : List (Step dim spacedim)) (p : Particle dim spacedim)
    (target : Option Nat) (bytes rest : Bytes)
    (henc : p.encode (run ({} : Session dim spacedim) steps).2.world = .ok bytes)
    (hplace : (run ({} : Session dim spacedim) steps).2.world.HasPlace target
      (p.propertyCount (run ({} : Session dim spacedim) steps).2.world)) :
    ∃ q w', (ofBytes target (bytes ++ rest)).exec (run ({} : Session dim spacedim) steps).2.world =
        (.ok (q, rest), w') ∧
      p.Restored (run ({} : Session dim spacedim) steps).2.world target w' q :=
  exec_ofBytes_encode (sound_reached steps).wellFormed henc rest hplace

/-- A particle whose values are a signalling NaN and a negative zero is restored beside itself: in
the slot of its own pool that another particle has given back. -/
theorem restored_run_of_shared_pool :
    let steps : List (Step 1 1) :=
      [.makePool { stride := 2, maxSlots := some 2 }, .make 0, .moveTo 0 0, .make 1, .moveTo 1 0,
        .setValues 1 [⟨1⟩, ⟨2⟩], .setValues 0 [⟨0x7FF0000000000001⟩, ⟨0x8000000000000000⟩], .drop 1]
    let w := (run {} steps).2.world
    ∃ p bytes, (run {} steps).2.particles.find? 0 = some p ∧ p.encode w = .ok bytes ∧
      w.HasPlace (some 0) (p.propertyCount w) ∧
      ∃ q w', (ofBytes (some 0) (bytes ++ [7])).exec w = (.ok (q, [7]), w') ∧
        p.Restored w (some 0) w' q := by
  intro steps w
  have hplace : w.HasPlace (some 0) 2 := fun _ => ⟨0, _, rfl, rfl, rfl, rfl, by decide⟩
  exact ⟨_, _, rfl, rfl, hplace, restored_run steps _ (some 0) _ [7] rfl hplace⟩

end Session

end ParticleStore
