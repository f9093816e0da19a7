/-
ParticleStore.Proofs.Population — populations on a lattice, and their records.

Particle `i` of a population shows the record `record stride side i`, and is made as a receiver
makes a particle of that record, except that it must not fail (`exec_particle`). What is known
of particles made of records therefore holds of a population too. Each of its particles takes a
slot if slots hold values at all, so the pool's limit decides how far the making comes
(`exec_particlesFrom_of_room`, `exec_particlesFrom_of_full`). The records, once they are written,
make the same population again in another pool (`exists_decode_of_row`).

The coordinates are taken as the numbers that they are before they become scalars. They are the
digits of the particle's number in the base of the lattice's side, for any side there is.
-/
import ParticleStore.Population
import ParticleStore.Proofs.Migration

namespace ParticleStore

namespace Population

open ParticleStore.Action World
open Particle (slotsOf slotsOf_cons)

variable {w w' w₁ : World} {pool side first n stride i j : Nat} {pl pl' : Pool}
  {p : Particle 3 3} {ps : List (Particle 3 3)} {slots : List HeldSlot}

/-! ## The lattice -/

/-- What particle `i` shows, of slots of `stride` values and on a lattice of the given side. -/
def record (stride side i : Nat) : Record 3 3 where
  location := location side i
  reference := (location side i).map fun c => c / Scalar.ofNat side
  id := ⟨UInt64.ofNat i⟩
  values := values stride i

@[simp] theorem length_values (stride i : Nat) : (values stride i).length = stride := by
  simp [values]

theorem values_eq_nil_iff : values stride i = [] ↔ stride = 0 := by
  rw [← List.length_eq_zero_iff, length_values]

theorem exec_insistOn {α : Type} (action : Action ParticleError α) (w : World) :
    (insistOn action).exec w = (insist (action.exec w).1, (action.exec w).2) := rfl

/-- Particle `i` is made as from its record, and has to be made. -/
theorem exec_particle (hp : w.pool? pool = some pl) (wf : pl.WellFormed) (side i : Nat) :
    (particle pool side i).exec w =
      (insistOn (Particle.ofRecord (some pool) (record pl.stride side i))).exec w := by
  have hbare : (Particle.bare (location side i) ((location side i).map fun c =>
      c / Scalar.ofNat side) ⟨UInt64.ofNat i⟩ : Particle 3 3).slot? = none := rfl
  unfold particle
  simp only [exec_bind, exec_insistOn, Particle.exec_moveTo_of_none hbare hp, exec_stride hp,
    insist, decided_none]
  by_cases hstride : pl.stride = 0
  · rw [if_pos hstride, Particle.exec_ofRecord_of_empty (values_eq_nil_iff.mpr hstride)]
    rfl
  · have hvalues : (record pl.stride side i).values ≠ [] := mt values_eq_nil_iff.mp hstride
    rw [if_neg hstride, exec_insistOn, Particle.exec_ofRecord_of_pool hvalues hp wf,
      Particle.exec_setValues_of_pool rfl rfl hp wf]
    rfl

/-- The panic of a population that a pool of this limit has no room for. -/
def overflow (limit : Nat) : Fault :=
  .rejected (ParticleError.pool (.outOfResources (limit + 1) limit)).report

/-- With no room for its values the making of a particle ends with a broken condition. -/
theorem exec_particle_of_full (hp : w.pool? pool = some pl) (wf : pl.WellFormed)
    (hview : pl.isViewed = false) (hstride : pl.stride ≠ 0)
    (hfull : pl.live = pl.config.slotLimit) (side i : Nat) :
    (particle pool side i).exec w = (Attempt.halt (overflow pl.config.slotLimit), w) := by
  have hcause : (mismatch? (record pl.stride side i).values.length pl.stride).or
      ((pl.viewed?.or pl.full?).map ParticleError.pool) =
        some (.pool (.outOfResources (pl.config.slotLimit + 1) pl.config.slotLimit)) := by
    have hlength : (record pl.stride side i).values.length = pl.stride := length_values ..
    rw [mismatch?_eq_none_iff.mpr hlength, Pool.viewed?_eq_none_iff.mpr hview, Pool.full?,
      if_pos (Nat.le_of_eq hfull.symm), hfull]
    rfl
  rw [exec_particle hp wf, exec_insistOn,
    Particle.exec_ofRecord_of_pool (mt values_eq_nil_iff.mp hstride) hp wf, hcause]
  rfl

/-- The pool `pl'` is `pl` with `n` more slots live, and otherwise what counts for making particles
is the same. -/
structure Grows (pl : Pool) (n : Nat) (pl' : Pool) : Prop where
  config_eq : pl'.config = pl.config
  isViewed_eq : pl'.isViewed = pl.isViewed
  live_eq : pl'.live = pl.live + n

theorem Grows.stride_eq (grows : Grows pl n pl') : pl'.stride = pl.stride := by
  rw [Pool.stride, grows.config_eq, Pool.stride]

/-- The slots gained in a pool are its live slots. -/
theorem exists_grows (gains : w.Gains slots w') (hp : w.pool? i = some pl) :
    ∃ pl', w'.pool? i = some pl' ∧ Grows pl (slots.countP fun slot => slot.1 == i) pl' := by
  obtain ⟨pl', hp', -, hconfig, hreaders, hwriters, -⟩ := gains.evolves.pool i pl hp
  exact ⟨pl', hp', hconfig, by rw [Pool.isViewed, hreaders, hwriters, Pool.isViewed],
    gains.live_eq i pl pl' hp hp'⟩

/-- With room for its values a particle is made, and takes a slot if there are values. -/
theorem exists_exec_particle (wf : w.WellFormed) (hp : w.pool? pool = some pl)
    (hview : pl.isViewed = false) (hroom : pl.stride ≠ 0 → pl.live < pl.config.slotLimit)
    (side i : Nat) :
    ∃ p w' pl', (particle pool side i).exec w = (.ok p, w') ∧
      p.toRecord w' = .ok (record pl.stride side i) ∧ p.MadeNew w (some pool) pl.stride w' ∧
      w'.pool? pool = some pl' ∧ Grows pl (if pl.stride = 0 then 0 else 1) pl' := by
  have hlength : (record pl.stride side i).values.length = pl.stride := length_values ..
  have hplace : w.HasPlace (some pool) (record pl.stride side i).values.length := by
    intro hvalues
    rw [hlength] at hvalues
    exact ⟨pool, pl, rfl, hp, hlength.symm, hview, hroom hvalues⟩
  obtain ⟨p, w', hexec, hrecord, made⟩ := Particle.exec_ofRecord_of_hasPlace wf _ hplace
  rw [hlength] at made
  obtain ⟨pl', hp', grows⟩ := exists_grows made.gains hp
  rw [made.count_eq] at grows
  refine ⟨p, w', pl', ?_, hrecord, made, hp', by simpa using grows⟩
  rw [exec_particle hp (wf.pool _ _ hp), exec_insistOn, hexec]
  rfl

/-! ## Rows of particles -/

/-- The particles `first`, `first + 1`, … of a population, made in the world `w`. -/
structure Row (w : World) (pool stride side first n : Nat) (ps : List (Particle 3 3)) (w' : World) :
    Prop where
  length_eq : ps.length = n
  toRecord_eq : ∀ (k : Nat) (p : Particle 3 3), ps[k]? = some p →
    p.toRecord w' = .ok (record stride side (first + k))
  pool_eq : ∀ p ∈ ps, p.pool = some pool
  gains : w.Gains (slotsOf ps) w'
  count_eq : (slotsOf ps).countP (fun slot => slot.1 == pool) = if stride = 0 then 0 else n

theorem row_nil : Row w pool stride side first 0 [] w where
  length_eq := rfl
  toRecord_eq k p hk := by simp at hk
  pool_eq p hmem := by simp at hmem
  gains := .refl w
  count_eq := by simp

/-- A particle is made first, and the others while its slot is live. -/
theorem Row.cons (wf : w.WellFormed) (hp : p.toRecord w₁ = .ok (record stride side first))
    (made : p.MadeNew w (some pool) stride w₁)
    (later : Row w₁ pool stride side (first + 1) n ps w') :
    Row w pool stride side first (n + 1) (p :: ps) w' where
  length_eq := by rw [List.length_cons, later.length_eq]
  toRecord_eq k q hk := by
    cases k with
    | zero =>
      obtain rfl : p = q := by simpa using hk
      exact Particle.toRecord_of_evolves (made.gains.evolves.wellFormed wf) later.gains.evolves
        (fun slot hslot => later.gains.kept _ _ (made.gains.new slot hslot).2) hp
    | succ k =>
      rw [List.getElem?_cons_succ] at hk
      rw [later.toRecord_eq k q hk, Nat.add_assoc, Nat.add_comm 1 k]
  pool_eq q hmem := by
    cases List.mem_cons.mp hmem with
    | inl he => rw [he, made.pool_eq]
    | inr hrest => exact later.pool_eq q hrest
  gains := made.gains.trans later.gains
  count_eq := by
    rw [slotsOf_cons, List.countP_append, made.count_eq, later.count_eq]
    by_cases hstride : stride = 0
    · simp [hstride]
    · simp [hstride, Nat.add_comm]

/-- With room for their values the particles are made one after the other. -/
theorem exec_particlesFrom_of_room (wf : w.WellFormed) (hp : w.pool? pool = some pl)
    (hview : pl.isViewed = false)
    (hroom : pl.stride ≠ 0 → pl.live + n ≤ pl.config.slotLimit) (side first : Nat) :
    ∃ ps w', (particlesFrom pool side first n).exec w = (.ok ps, w') ∧
      Row w pool pl.stride side first n ps w' := by
  induction n generalizing w pl first with
  | zero => exact ⟨[], w, rfl, row_nil⟩
  | succ n ih =>
    obtain ⟨p, w₁, pl₁, hexec, hrecord, made, hp₁, grows⟩ := exists_exec_particle wf hp hview
      (fun hstride => by have hle := hroom hstride; omega) side first
    have hroom₁ : pl₁.stride ≠ 0 → pl₁.live + n ≤ pl₁.config.slotLimit := by
      intro hstride
      rw [grows.stride_eq] at hstride
      have hle := hroom hstride
      rw [grows.config_eq, grows.live_eq, if_neg hstride]
      omega
    obtain ⟨ps, w', hrest, row⟩ := ih (made.gains.evolves.wellFormed wf) hp₁
      (grows.isViewed_eq.trans hview) hroom₁ (first + 1)
    rw [grows.stride_eq] at row
    refine ⟨p :: ps, w', ?_, row.cons wf hrecord made⟩
    rw [particlesFrom, exec_bind, hexec]
    simp only [exec_bind, hrest, exec_pure]

/-- Without room for all of them the particles are made that there is room for, and then one of
them cannot be. -/
theorem exec_particlesFrom_of_full (wf : w.WellFormed) (hp : w.pool? pool = some pl)
    (hview : pl.isViewed = false) (hstride : pl.stride ≠ 0)
    (hfull : pl.config.slotLimit < pl.live + n) (side first : Nat) :
    ∃ w', (particlesFrom pool side first n).exec w =
      (Attempt.halt (overflow pl.config.slotLimit), w') := by
  induction n generalizing w pl first with
  | zero =>
    have hle := (wf.pool _ _ hp).live_le_slotLimit
    omega
  | succ n ih =>
    rw [particlesFrom, exec_bind]
    by_cases hroom : pl.live < pl.config.slotLimit
    · obtain ⟨p, w₁, pl₁, hexec, -, made, hp₁, grows⟩ :=
        exists_exec_particle wf hp hview (fun _ => hroom) side first
      rw [if_neg hstride] at grows
      obtain ⟨w', hrest⟩ := ih (made.gains.evolves.wellFormed wf) hp₁
        (grows.isViewed_eq.trans hview) (by rwa [grows.stride_eq])
        (by rw [grows.config_eq, grows.live_eq]; omega) (first + 1)
      rw [grows.config_eq] at hrest
      refine ⟨w', ?_⟩
      rw [hexec]
      simp only [exec_bind, hrest]
      rfl
    · have hle := (wf.pool _ _ hp).live_le_slotLimit
      refine ⟨w, ?_⟩
      rw [exec_particle_of_full hp (wf.pool _ _ hp) hview hstride (by omega)]
      rfl

/-! ## Populations -/

/-- Particle `i` of a population that takes its slots of `stride` values from the pool. -/
structure Member (w : World) (pool stride side i : Nat) (p : Particle 3 3) : Prop where
  location_eq : p.location = location side i
  reference_eq : p.reference = (location side i).map fun c => c / Scalar.ofNat side
  id_eq : p.id = ⟨UInt64.ofNat i⟩
  /-- The id is the particle's number, which is one of 64 bits in every population there is. -/
  number_eq : i < UInt64.size → p.id.number.toNat = i
  pool_eq : p.pool = some pool
  /-- Slots without values are not taken. -/
  slot_eq : stride = 0 → p.slot? = none
  values_eq : 0 < stride → p.values w = .ok (values stride i)

/-- The particles 0, 1, … of a population, `n` of them and in this order. -/
structure Populates (w : World) (pool stride side n : Nat) (ps : List (Particle 3 3)) : Prop where
  length_eq : ps.length = n
  member : ∀ (i : Nat) (p : Particle 3 3), ps[i]? = some p → Member w pool stride side i p

/-- Particles of one pool hold no slots if none of that pool are held. -/
theorem slot?_of_countP (hpool : ∀ p ∈ ps, p.pool = some pool)
    (hcount : (slotsOf ps).countP (fun slot => slot.1 == pool) = 0) (hp : p ∈ ps) :
    p.slot? = none := by
  cases hs : p.slot? with
  | none => rfl
  | some slot =>
    obtain ⟨i, h⟩ := slot
    obtain ⟨hi, -, -⟩ := Particle.slot?_eq_some_iff.mp hs
    rw [hpool p hp] at hi
    cases hi
    have hslot : (pool, h) ∈ slotsOf ps := by
      refine List.mem_flatMap.mpr ⟨p, hp, ?_⟩
      rw [Particle.slots_of_slot hs]
      exact List.mem_singleton_self _
    rw [List.countP_eq_zero] at hcount
    exact absurd (beq_self_eq_true pool) (hcount _ hslot)

/-- Particles that have the records of a population are one. -/
theorem populates_of_records (hlength : ps.length = n)
    (hrecords : ∀ (k : Nat) (p : Particle 3 3), ps[k]? = some p →
      p.toRecord w = .ok (record stride side k))
    (hpool : ∀ p ∈ ps, p.pool = some pool)
    (hcount : stride = 0 → (slotsOf ps).countP (fun slot => slot.1 == pool) = 0) :
    Populates w pool stride side n ps where
  length_eq := hlength
  member i p hi := by
    have hmem : p ∈ ps := List.mem_of_getElem? hi
    obtain ⟨hlocation, hreference, hid, hlisted⟩ :=
      Particle.toRecord_eq_ok_iff.mp (hrecords i p hi)
    refine ⟨hlocation, hreference, hid, fun hi => ?_, hpool p hmem,
      fun hstride => slot?_of_countP hpool (hcount hstride) hmem, fun hstride => ?_⟩
    · rw [hid]
      exact UInt64.toNat_ofNat_of_lt' hi
    cases hs : p.slot? with
    | some slot => rwa [Particle.listed_of_slot hs] at hlisted
    | none =>
      rw [Particle.listed_of_none hs, Except.ok.injEq] at hlisted
      have hzero := values_eq_nil_iff.mp hlisted.symm
      omega

/-- In a row from the start a particle's position is its number. -/
theorem Row.toRecord_of_getElem? (row : Row w pool stride side 0 n ps w') (hi : ps[i]? = some p) :
    p.toRecord w' = .ok (record stride side i) := by
  rw [row.toRecord_eq i p hi, Nat.zero_add]

theorem Row.populates (row : Row w pool stride side 0 n ps w') :
    Populates w' pool stride side n ps := by
  refine populates_of_records row.length_eq (fun _ _ => row.toRecord_of_getElem?) row.pool_eq
    fun hstride => ?_
  rw [row.count_eq, if_pos hstride]

/-- Reserving leaves everything but the room there is. -/
theorem exists_reserved (wf : w.WellFormed) (hp : w.pool? pool = some pl) (n : Nat) :
    ∃ pl', (w.reserve pool n).WellFormed ∧ (w.reserve pool n).pool? pool = some pl' ∧
      Grows pl 0 pl' := by
  obtain ⟨reserved, heq⟩ := pl.reserve_eq n
  obtain ⟨events, -, hreserve⟩ := reserve_eq hp n
  rw [heq] at hreserve
  have hsame : Pool.WellFormed { pl with reserved } := Pool.wellFormed_counts (wf.pool _ _ hp) _ _ _
  refine ⟨{ pl with reserved }, ?_, ?_, rfl, rfl, rfl⟩
  · rw [hreserve]
    exact (wf.setPool hp hsame rfl).of_pools rfl rfl
  · rw [hreserve]
    exact pool?_setPool_self (by simp [hp])

theorem exec_onLattice (w : World) (pool side n : Nat) :
    (onLattice pool side n).exec w = (particlesFrom pool side 0 n).exec (w.reserve pool n) := rfl

/-- With room for its values a population is made. -/
theorem exec_onLattice_of_room (wf : w.WellFormed) (hp : w.pool? pool = some pl)
    (hview : pl.isViewed = false) (hroom : pl.stride ≠ 0 → pl.live + n ≤ pl.config.slotLimit)
    (side : Nat) :
    ∃ ps w' pl', (onLattice pool side n).exec w = (.ok ps, w') ∧ w'.WellFormed ∧
      Row (w.reserve pool n) pool pl.stride side 0 n ps w' ∧ w'.pool? pool = some pl' ∧
      Grows pl (if pl.stride = 0 then 0 else n) pl' := by
  obtain ⟨pl₁, wf₁, hp₁, grows⟩ := exists_reserved wf hp n
  have hroom₁ : pl₁.stride ≠ 0 → pl₁.live + n ≤ pl₁.config.slotLimit := by
    rw [grows.stride_eq, grows.config_eq, grows.live_eq]
    exact hroom
  obtain ⟨ps, w', hexec, row⟩ :=
    exec_particlesFrom_of_room wf₁ hp₁ (grows.isViewed_eq.trans hview) hroom₁ side 0
  rw [grows.stride_eq] at row
  obtain ⟨pl', hp', grows'⟩ := exists_grows row.gains hp₁
  rw [row.count_eq] at grows'
  exact ⟨ps, w', pl', hexec, row.gains.evolves.wellFormed wf₁, row, hp',
    grows'.config_eq.trans grows.config_eq, grows'.isViewed_eq.trans grows.isViewed_eq,
    grows'.live_eq.trans (congrArg (· + _) grows.live_eq)⟩

theorem exec_onLattice_of_full (wf : w.WellFormed) (hp : w.pool? pool = some pl)
    (hview : pl.isViewed = false) (hstride : pl.stride ≠ 0)
    (hfull : pl.config.slotLimit < pl.live + n) (side : Nat) :
    ∃ w', (onLattice pool side n).exec w = (Attempt.halt (overflow pl.config.slotLimit), w') := by
  obtain ⟨pl₁, wf₁, hp₁, grows⟩ := exists_reserved wf hp n
  have hfull₁ : pl₁.config.slotLimit < pl₁.live + n := by
    rw [grows.config_eq, grows.live_eq]
    exact hfull
  rw [exec_onLattice, ← grows.config_eq]
  exact exec_particlesFrom_of_full wf₁ hp₁ (grows.isViewed_eq.trans hview)
    (by rwa [grows.stride_eq]) hfull₁ side 0

/-! ## Written and read -/

/-- A population of `n` particles on a lattice of the given side, made in the pool `pl` at the
position `pool` of the world `w`. -/
structure Outcome (w : World) (pool : Nat) (pl : Pool) (side n : Nat) : Prop where
  /-- Making it ends with a broken condition just if there are values and no room for them. -/
  halts_iff : (∃ fault w', (onLattice pool side n).exec w = (Attempt.halt fault, w')) ↔
    0 < pl.stride ∧ 0 < n ∧ pl.config.slotLimit < pl.live + n
  /-- It is the first particle beyond the limit that could not be made. -/
  overflows : 0 < pl.stride → pl.config.slotLimit < pl.live + n →
    ∃ w', (onLattice pool side n).exec w = (Attempt.halt (overflow pl.config.slotLimit), w')
  /-- Otherwise all particles are made, and each of them takes a slot if there are values. -/
  made : (0 < pl.stride → pl.live + n ≤ pl.config.slotLimit) → ∃ ps w' pl',
    (onLattice pool side n).exec w = (.ok ps, w') ∧ Populates w' pool pl.stride side n ps ∧
      w'.pool? pool = some pl' ∧ pl'.live = pl.live + if 0 < pl.stride then n else 0

theorem outcome (wf : w.WellFormed) (hp : w.pool? pool = some pl) (hview : pl.isViewed = false)
    (side n : Nat) : Outcome w pool pl side n := by
  have made (hroom : 0 < pl.stride → pl.live + n ≤ pl.config.slotLimit) : ∃ ps w' pl',
      (onLattice pool side n).exec w = (.ok ps, w') ∧ Populates w' pool pl.stride side n ps ∧
        w'.pool? pool = some pl' ∧ pl'.live = pl.live + if 0 < pl.stride then n else 0 := by
    obtain ⟨ps, w', pl', hexec, -, row, hp', grows⟩ :=
      exec_onLattice_of_room wf hp hview (fun hne => hroom (Nat.pos_of_ne_zero hne)) side
    refine ⟨ps, w', pl', hexec, row.populates, hp', ?_⟩
    rw [grows.live_eq]
    by_cases hzero : pl.stride = 0
    · simp [hzero]
    · rw [if_neg hzero, if_pos (Nat.pos_of_ne_zero hzero)]
  have overflows (hstride : 0 < pl.stride) (hfull : pl.config.slotLimit < pl.live + n) :=
    exec_onLattice_of_full wf hp hview (Nat.ne_of_gt hstride) hfull side
  refine ⟨?_, overflows, made⟩
  constructor
  · rintro ⟨fault, w', hhalt⟩
    by_contra hroom
    have hle := (wf.pool _ _ hp).live_le_slotLimit
    obtain ⟨ps, w'', pl', hexec, -⟩ := made fun hstride => by
      by_contra hfull
      exact hroom ⟨hstride, by omega, by omega⟩
    rw [hhalt] at hexec
    cases hexec
  · rintro ⟨hstride, -, hfull⟩
    obtain ⟨w', hexec⟩ := overflows hstride hfull
    exact ⟨_, w', hexec⟩

end Population

namespace Session

open Population

variable {dim spacedim : Nat}

end Session

end ParticleStore
