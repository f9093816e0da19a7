/-
ParticleStore.Proofs.Particle.Writing — the record of one particle in the slot of another.

A particle that is brought up to date keeps its slot. The values of the record are written
there, in place of those that were there, and no pool notes it in its ledger
(`exec_update_of_writable`). All that can be refused is a record with another number of values.
Whoever holds another slot shows what it showed (`snapshot_of_writes`).
-/
import ParticleStore.Proofs.Particle.RoundTrip
import ParticleStore.Proofs.World.Writing

namespace ParticleStore

open ParticleStore.Action World

variable {dim spacedim : Nat} {w w' w₀ : World} {i : Nat} {pl : Pool} {h : Handle}
  {p q : Particle dim spacedim} {r : Record dim spacedim} {slots : List HeldSlot}
  {bytes input rest : Bytes}

namespace Particle

/-- The particle's slot, if it holds one, is live, and no view of its pool is open. -/
def Writable (w : World) (p : Particle dim spacedim) : Prop :=
  ∀ slot ∈ p.slots, (w.contents slot.1 slot.2).isSome ∧ ∀ pl ∈ w.pool? slot.1, pl.isViewed = false

instance : Decidable (p.Writable w) := inferInstanceAs (Decidable (∀ slot ∈ p.slots, _))

/-- The pool of a writable slot. -/
theorem Writable.pool (writable : p.Writable w) (hs : p.slot? = some (i, h)) :
    ∃ pl, w.pool? i = some pl ∧ pl.flawed? h = none ∧ pl.isViewed = false := by
  obtain ⟨hsome, hview⟩ := writable (i, h) (by simp [slots_of_slot hs])
  obtain ⟨pl, hp, hshown⟩ := exists_pool?_of_contents hsome
  exact ⟨pl, hp, Pool.flawed?_eq_none_iff_contents.mpr hshown, hview pl hp⟩

/-- Writes make no difference to who can be written to. -/
theorem Writable.of_writes (writable : p.Writable w) (writes : w.Writes slots w') :
    p.Writable w' := by
  intro slot hslot
  obtain ⟨hsome, hview⟩ := writable slot hslot
  refine ⟨by rwa [writes.isSome_contents], fun pl' hp' => ?_⟩
  obtain ⟨pl, hp⟩ := exists_pool? writes.evolves.length_eq hp'
  obtain ⟨pl₁, hp₁, hledger⟩ := writes.pool hp
  rw [hp'] at hp₁
  cases hp₁
  rw [Pool.eq_of_ledger Pool.isViewed (fun _ => rfl) hledger]
  exact hview pl hp

/-- What can be seen of a particle stays while other slots are written. -/
theorem snapshot_of_writes (wf : w.WellFormed) (writes : w.Writes slots w')
    (hout : p.slots.Disjoint slots) : p.snapshot w' = p.snapshot w := by
  have e := writes.evolves
  have hvalues : p.values w' = p.values w := by
    cases hs : p.slot? with
    | none => simp only [values, hs]
    | some held =>
      obtain ⟨i, h⟩ := held
      cases hp : w.pool? i with
      | none => simp only [values, hs, World.pool, hp, writes.pool?_eq_none hp]
      | some pl =>
        obtain ⟨pl', hp', hledger⟩ := writes.pool hp
        have hkept := writes.kept i h (hout (by simp [slots_of_slot hs]))
        have wfp := wf.pool i pl hp
        have wfp' := (e.wellFormed wf).pool i pl' hp'
        have hflawed := Pool.flawed?_of_ledger (h := h) hledger
        rw [values_of_slot hs hp wfp, values_of_slot hs hp' wfp', hflawed,
          Pool.eq_of_ledger Pool.written? (fun _ => rfl) hledger]
        cases hgood : pl.flawed? h with
        | some cause => rfl
        | none =>
          rw [contents_of_pool hp, contents_of_pool hp', Pool.contents_eq_block wfp hgood,
            Pool.contents_eq_block wfp' (hflawed.trans hgood)] at hkept
          rw [Option.some.inj hkept]
  rw [snapshot, snapshot, hvalues, poolId?_of_evolves e rfl, propertyCount_of_evolves e, byteWidth,
    byteWidth, propertyCount_of_evolves e]

/-- A record with as many values as the particle has goes into the particle's own slot. -/
theorem exec_update_of_writable (wf : w.WellFormed)
    (hdecode : (Record.decoder dim spacedim).run input = .ok (r, rest)) (writable : q.Writable w)
    (hcount : r.values.length = q.propertyCount w) :
    ∃ w', (q.update input).exec w = (.ok (q.relabelled r, rest), w') ∧ w.Writes q.slots w' ∧
      (q.relabelled r).toRecord w' = .ok r := by
  cases hs : q.slot? with
  | none =>
    rw [propertyCount_of_none hs] at hcount
    have hlisted : (q.relabelled r).listed w = .ok r.values := by
      have hs' : (q.relabelled r).slot? = none := hs
      rw [listed_of_none hs', List.eq_nil_of_length_eq_zero hcount]
    refine ⟨w, ?_, .refl w _, toRecord_eq_ok_iff.mpr ⟨rfl, rfl, rfl, hlisted⟩⟩
    rw [exec_update_of_none hdecode hs, mismatch?_eq_none_iff.mpr hcount, decided_none]
  | some held =>
    obtain ⟨i, h⟩ := held
    obtain ⟨pl, hp, hgood, hview⟩ := writable.pool hs
    have wfp := wf.pool i pl hp
    rw [propertyCount_of_slot hs hp] at hcount
    have u := Pool.update_withBlock wfp (Pool.flawed?_eq_none_iff_contents.mp hgood) hview hcount
    refine ⟨_, ?_, by rw [slots_of_slot hs]; exact .of_update hp u rfl, ?_⟩
    · rw [exec_update_of_slot hdecode hs hp wfp, mismatch?_eq_none_iff.mpr hcount, hgood,
        Pool.viewed?_eq_none_iff.mpr hview]
      rfl
    · have hwriters : pl.writers = 0 := by
        simp only [Pool.isViewed, decide_eq_false_iff_not] at hview
        omega
      have hs' : (q.relabelled r).slot? = some (i, h) := hs
      refine toRecord_eq_ok_iff.mpr ⟨rfl, rfl, rfl, ?_⟩
      rw [listed_eq_ok_iff ((update_setPool hp u).wellFormed wf) hs']
      exact ⟨_, pool?_setPool_self (by simp [hp]), hwriters, u.contents_self⟩

/-- The record of a particle goes into the slot of another one with as many values. -/
theorem exec_update_encode (wf₀ : w₀.WellFormed) (wf : w.WellFormed) (henc : p.encode w₀ = .ok bytes)
    (writable : q.Writable w) (hcount : p.propertyCount w₀ = q.propertyCount w) (rest : Bytes) :
    ∃ r w', p.toRecord w₀ = .ok r ∧
      (q.update (bytes ++ rest)).exec w = (.ok (q.relabelled r, rest), w') ∧
      w.Writes q.slots w' ∧ (q.relabelled r).toRecord w' = .ok r := by
  obtain ⟨r, hrecord, hdecode⟩ := exists_record_of_encode henc
  have hlength : r.values.length = q.propertyCount w :=
    (length_of_listed wf₀ (listed_of_toRecord hrecord)).trans hcount
  obtain ⟨w', hupdate⟩ := exec_update_of_writable wf (hdecode rest) writable hlength
  exact ⟨r, w', hrecord, hupdate⟩

/-- A record with more or fewer values is refused. -/
theorem exec_update_encode_of_ne (wf₀ : w₀.WellFormed) (wf : w.WellFormed)
    (henc : p.encode w₀ = .ok bytes) (writable : q.Writable w)
    (hne : p.propertyCount w₀ ≠ q.propertyCount w) (rest : Bytes) :
    (q.update (bytes ++ rest)).exec w =
      (Attempt.refuse (.countMismatch (p.propertyCount w₀) (q.propertyCount w)), w) := by
  obtain ⟨r, hrecord, hdecode⟩ := exists_record_of_encode henc
  rw [← length_of_listed wf₀ (listed_of_toRecord hrecord)] at hne ⊢
  cases hs : q.slot? with
  | none =>
    rw [propertyCount_of_none hs] at hne ⊢
    rw [exec_update_of_none (hdecode rest) hs, mismatch?, if_pos hne]
    rfl
  | some held =>
    obtain ⟨i, h⟩ := held
    obtain ⟨pl, hp, -, -⟩ := writable.pool hs
    rw [propertyCount_of_slot hs hp] at hne ⊢
    rw [exec_update_of_slot (hdecode rest) hs hp (wf.pool i pl hp), mismatch?, if_pos hne]
    rfl

end Particle

end ParticleStore
