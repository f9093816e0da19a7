/-
ParticleStore.Proofs.Session.Recreating — slots that are taken again for a record.

A record counts the values of a particle and does not say whether the particle holds a slot. A
particle that is made of it, in a pool with slots of the same size, holds a slot just if the first
one does and shows the same values (`Recreated.same`), unless the slot is one without values.
That one is written like no slot at all, and none is taken for it (`Recreated.lost`).
-/
import ParticleStore.Proofs.Session.Writers

namespace ParticleStore

open ParticleStore.Action World

variable {dim spacedim : Nat}

namespace Particle

variable {w w' : World} {i j : Nat} {pl tg : Pool} {p q : Particle dim spacedim}
  {values : List Scalar} {bytes : Bytes}

/-! ## Holding a slot -/

theorem hasProperties_of_none (hs : p.slot? = none) : p.hasProperties = false := by
  rw [hasProperties, hs]
  rfl

theorem values_of_none (hs : p.slot? = none) : p.values w = Attempt.refuse .noProperties := by
  rw [Particle.values, hs]

/-- Only who holds a slot lists values. -/
theorem values_of_listed (hlisted : p.listed w = .ok values) (hne : values ≠ []) :
    p.hasProperties = true ∧ p.values w = .ok values := by
  unfold listed at hlisted
  cases hhas : p.hasProperties with
  | false =>
    rw [hhas] at hlisted
    cases hlisted
    exact absurd rfl hne
  | true =>
    rw [hhas] at hlisted
    exact ⟨rfl, hlisted⟩

theorem propertyCount_of_pool (hpool : p.pool = some i) (hpl : w.pool? i = some pl) :
    p.propertyCount w = if p.hasProperties then pl.stride else 0 := by
  cases hs : p.slot? with
  | none => simp [propertyCount_of_none hs, hasProperties_of_none hs]
  | some held =>
    obtain ⟨i', h⟩ := held
    have hsame : some i' = some i := (slot?_eq_some_iff.mp hs).1.symm.trans hpool
    cases hsame
    simp [propertyCount_of_slot hs hpl, hasProperties, hs]

/-! ## Holding a slot again -/

/-- The particle `q` has been made of the record of the particle `p`, whose pool has slots of
`stride` values, in a pool with slots of as many. -/
structure Recreated (w : World) (p : Particle dim spacedim) (stride : Nat) (w' : World)
    (q : Particle dim spacedim) : Prop where
  /-- It holds a slot just if the first particle does, and reading the values comes to the same. -/
  same : p.hasProperties = false ∨ stride ≠ 0 →
    q.hasProperties = p.hasProperties ∧ q.values w' = p.values w
  /-- Where the first particle holds a slot without values, it holds none. -/
  lost : p.hasProperties = true → stride = 0 →
    p.values w = .ok [] ∧ q.hasProperties = false ∧ q.values w' = Attempt.refuse .noProperties

theorem exec_ofBytes_recreated (wf : w.WellFormed) (hpool : p.pool = some i)
    (hpl : w.pool? i = some pl) (ht : w.pool? j = some tg) (hstride : tg.stride = pl.stride)
    (hroom : tg.HasRoom 1) (henc : p.encode w = .ok bytes) (rest : Bytes) :
    ∃ q w', (ofBytes (some j) (bytes ++ rest)).exec w = (.ok (q, rest), w') ∧
      p.Recreated w pl.stride w' q := by
  obtain ⟨r, hrecord, hdecode⟩ := exists_record_of_encode henc
  have hlisted := listed_of_toRecord hrecord
  have hcount := length_of_listed wf hlisted
  rw [propertyCount_of_pool hpool hpl] at hcount
  by_cases hv : r.values = []
  · refine ⟨_, w, by rw [exec_ofBytes_ok (hdecode rest), exec_map, exec_ofRecord_of_empty hv], ?_⟩
    have hnone : { bare r.location r.reference r.id with pool := some j }.slot? = none :=
      slot?_of_invalid rfl
    rw [hv] at hlisted hcount
    refine ⟨fun hcase => ?_, fun hhas _ => ⟨?_, hasProperties_of_none hnone, values_of_none hnone⟩⟩
    · -- no values and no slot without values: no slot
      have hbare : p.hasProperties = false := by
        rcases hcase with hbare | hne
        · exact hbare
        · by_contra hhas
          simp only [Bool.not_eq_false] at hhas
          rw [hhas] at hcount
          exact hne hcount.symm
      have hs : p.slot? = none := by simpa [hasProperties] using hbare
      exact ⟨by rw [hasProperties_of_none hnone, hbare], by rw [values_of_none hnone, values_of_none hs]⟩
    · simpa [listed, hhas] using hlisted
  · obtain ⟨hhas, hvalues⟩ := values_of_listed hlisted hv
    rw [hhas, if_pos rfl] at hcount
    have hplace : w.HasPlace (some j) r.values.length := fun _ =>
      ⟨j, tg, rfl, ht, hstride.trans hcount.symm, hroom⟩
    obtain ⟨q, w', hexec, hrecord', -⟩ := exec_ofRecord_of_hasPlace wf r hplace
    obtain ⟨hhas', hvalues'⟩ := values_of_listed (listed_of_toRecord hrecord') hv
    refine ⟨q, w', by rw [exec_ofBytes_ok (hdecode rest), exec_map, hexec], ?_, fun _ hzero => ?_⟩
    · exact fun _ => ⟨hhas'.trans hhas.symm, hvalues'.trans hvalues.symm⟩
    · exact absurd (List.eq_nil_of_length_eq_zero (hcount.trans hzero)) hv

end Particle

namespace Session

open Particle

/-- What comes of writing the particle `p` of the pool `pl`, and of making another particle of its
record in the pool at the position `j`. -/
structure Recreates (s : Session dim spacedim) (p : Particle dim spacedim) (pl : Pool) (j : Nat) :
    Prop where
  /-- The particle is written if a record can count its values. -/
  written : p.propertyCount s.world < UInt32.size → ∃ bytes, p.encode s.world = .ok bytes
  /-- Its bytes, whatever follows them, make another particle, and what follows is left. -/
  recreated : ∀ bytes rest, p.encode s.world = .ok bytes → ∃ q w',
    (ofBytes (some j) (bytes ++ rest)).exec s.world = (.ok (q, rest), w') ∧
      p.Recreated s.world pl.stride w' q

theorem Sound.recreates {s : Session dim spacedim} {key i j : Nat} {p : Particle dim spacedim}
    {pl tg : Pool} (sound : s.Sound False) (hp : s.particles.find? key = some p)
    (hpool : p.pool = some i) (hpl : s.world.pool? i = some pl)
    (hlive : ∀ slot ∈ p.slots, (s.world.contents slot.1 slot.2).isSome) (hwriters : pl.writers = 0)
    (ht : s.world.pool? j = some tg) (hstride : tg.stride = pl.stride) (hroom : tg.HasRoom 1) :
    s.Recreates p pl j := by
  refine ⟨fun hcount => ?_, fun bytes rest henc => ?_⟩
  · -- the slot is live, nobody writes to the pool, and the values can be counted
    refine exists_encode_of_not_unwritable sound.wellFormed (sound.placed hp) ?_
    rintro ⟨i', h, pl', hs, hpl', hcause⟩
    have hsame : some i' = some i := (slot?_eq_some_iff.mp hs).1.symm.trans hpool
    cases hsame
    rw [hpl] at hpl'
    cases hpl'
    have hgood := (flawed?_eq_none_iff hpl).mpr (hlive (i, h) (by simp [slots_of_slot hs]))
    rcases hcause with hdead | hwriting | hlarge
    · rw [Pool.isLive_eq, hgood] at hdead
      cases hdead
    · exact absurd hwriters (Nat.ne_of_gt hwriting)
    · exact absurd hcount (Nat.not_lt.mpr hlarge)
  · exact exec_ofBytes_recreated sound.wellFormed hpool hpl ht hstride hroom henc rest

/-- **Who holds a slot holds one again after a record**, unless the slot is one without values:
after every run of steps, for every particle of a pool whose slot, if it holds one, is live and
can be read, and every pool with slots of the same size that has room for one and no open view. -/
theorem recreates_run (steps : List (Step dim spacedim)) (key i j : Nat)
    (p : Particle dim spacedim) (pl tg : Pool)
    (hp : (run ({} : Session dim spacedim) steps).2.particles.find? key = some p)
    (hpool : p.pool = some i)
    (hpl : (run ({} : Session dim spacedim) steps).2.world.pool? i = some pl)
    (hlive : ∀ slot ∈ p.slots,
      ((run ({} : Session dim spacedim) steps).2.world.contents slot.1 slot.2).isSome)
    (hwriters : pl.writers = 0)
    (ht : (run ({} : Session dim spacedim) steps).2.world.pool? j = some tg)
    (hstride : tg.stride = pl.stride) (hroom : tg.HasRoom 1) :
    (run ({} : Session dim spacedim) steps).2.Recreates p pl j :=
  (sound_reached steps).recreates hp hpool hpl hlive hwriters ht hstride hroom

/-- A particle with two values and a read view of its pool, and another pool that reuses a slot; and
a particle whose slot has no values, beside itself in its own pool. -/
theorem recreates_run_of_shared :
    let steps : List (Step 1 1) :=
      [.makePool { stride := 2 }, .makePool { stride := 2, maxSlots := some 1 },
        .makePool { stride := 0 }, .make 0, .moveTo 0 0, .setValues 0 [⟨5⟩, ⟨7⟩],
        .openView 0 0 (.ofParticle 0) false, .make 1, .moveTo 1 1, .setValues 1 [⟨1⟩, ⟨2⟩], .drop 1,
        .make 2, .moveTo 2 2, .setValues 2 []]
    let s := (run {} steps).2
    ∃ p q pl pl₀, s.particles.find? 0 = some p ∧ s.particles.find? 2 = some q ∧
      s.world.pool? 0 = some pl ∧ s.world.pool? 2 = some pl₀ ∧ p.hasProperties = true ∧
      q.hasProperties = true ∧ s.Recreates p pl 1 ∧ s.Recreates q pl₀ 2 := by
  intro steps s
  have hlive : ∀ slot ∈ [(0, (⟨⟨1⟩, 0, 0⟩ : Handle))], (s.world.contents slot.1 slot.2).isSome := by
    decide
  have hlive' : ∀ slot ∈ [(2, (⟨⟨3⟩, 0, 0⟩ : Handle))], (s.world.contents slot.1 slot.2).isSome := by
    decide
  exact ⟨_, _, _, _, rfl, rfl, rfl, rfl, rfl, rfl,
    recreates_run steps 0 0 1 _ _ _ rfl rfl rfl hlive rfl rfl rfl ⟨rfl, by decide⟩,
    recreates_run steps 2 2 2 _ _ _ rfl rfl rfl hlive' rfl rfl rfl ⟨rfl, by decide⟩⟩

/-- A slot without values can be read. The particle made of the record, in the same pool, holds no
slot, and cannot be read. -/
theorem empty_slot_not_recreated :
    let steps : List (Step 1 1) := [.makePool { stride := 0 }, .make 0, .moveTo 0 0, .setValues 0 []]
    let s := (run {} steps).2
    ∃ (p q : Particle 1 1) (pl : Pool) (bytes : Bytes) (w' : World),
      s.particles.find? 0 = some p ∧ p.pool = some 0 ∧ s.world.pool? 0 = some pl ∧
      (∀ slot ∈ p.slots, (s.world.contents slot.1 slot.2).isSome) ∧ pl.writers = 0 ∧
      pl.HasRoom 1 ∧ p.encode s.world = .ok bytes ∧
      (ofBytes (some 0) bytes).exec s.world = (.ok (q, []), w') ∧ p.hasProperties = true ∧
      q.hasProperties = false ∧ p.values s.world = .ok [] ∧
      q.values w' = Attempt.refuse .noProperties := by
  intro steps s
  have hlive : ∀ slot ∈ [(0, (⟨⟨1⟩, 0, 0⟩ : Handle))], (s.world.contents slot.1 slot.2).isSome := by
    decide
  exact ⟨_, _, _, _, _, rfl, rfl, rfl, hlive, rfl, ⟨rfl, by decide⟩, rfl, rfl, rfl, rfl, rfl, rfl⟩

end Session

end ParticleStore
