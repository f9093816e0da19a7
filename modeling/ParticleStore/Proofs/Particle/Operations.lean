/-
ParticleStore.Proofs.Particle.Operations — what each operation on a particle does.

One equation for each operation, for a particle that holds a slot of a pool and for
one that holds none: the causes to refuse it, in the order in which they are looked
for, and otherwise the new particle and the new world. The causes of a pool appear
under `ParticleError.pool`; `mismatch?` compares property counts.

Three operations change the world before their last step: they fill a slot that they
have taken, or release the old slot once the new one is filled. On well-formed
pools such a later step is never refused (`exec_allocateFilled`, `exec_moveTo`), so
the branches that would take back what was done are never reached.
-/
import ParticleStore.Particle.Copy
import ParticleStore.Particle.Transfer
import ParticleStore.Proofs.Action

namespace ParticleStore

open ParticleStore.Action

variable {w : World} {i target : Nat} {pl tg : Pool} {h k : Handle} {values new : List Scalar}

namespace World

/-- A slot just taken can be written: nobody holds a view, and its handle is good. -/
theorem flawed?_taken (wf : pl.WellFormed) (hview : pl.isViewed = false)
    (hroom : pl.live < pl.config.slotLimit) : pl.taken.flawed? pl.nextHandle = none := by
  rw [Pool.flawed?_eq_none_iff_contents, (Pool.update_taken wf hview hroom).contents_self]
  rfl

/-- A slot just taken is filled. -/
theorem exec_setValues_taken (hp : w.pool? i = some pl) (wf : pl.WellFormed)
    (hnone : pl.viewed?.or pl.full? = none) (hv : values.length = pl.stride) :
    (World.setValues i pl.nextHandle values).exec (w.setPool i pl.taken) =
      (.ok (), w.setPool i (pl.filled values)) := by
  rw [Option.or_eq_none_iff, Pool.viewed?_eq_none_iff, Pool.full?_eq_none_iff] at hnone
  obtain ⟨hview, hroom⟩ := hnone
  have hp' : (w.setPool i pl.taken).pool? i = some pl.taken := pool?_setPool_self (by simp [hp])
  have hunviewed : pl.taken.viewed? = none := by simpa [Pool.viewed?_eq_none_iff] using hview
  rw [exec_setValues hp' (Pool.wellFormed_taken wf hroom) (by simpa using hv),
    flawed?_taken wf hview hroom, hunviewed, setPool_setPool]
  rfl

/-- A slot is taken and filled, or refused before anything is taken. -/
theorem exec_allocateFilled (hp : w.pool? i = some pl) (wf : pl.WellFormed)
    (hv : values.length = pl.stride) :
    (allocateFilled i values).exec w =
      decided ((pl.viewed?.or pl.full?).map .pool) w pl.nextHandle
        (w.setPool i (pl.filled values)) := by
  unfold allocateFilled
  refine exec_bind_ok (exec_mapCause_decided (exec_allocate hp wf)) fun hnone => ?_
  rw [Option.map_eq_none_iff] at hnone
  rw [exec_bind, exec_outcome, exec_setValues_taken hp wf hnone hv]
  rfl

/-- A slot of any pool is released after another one is taken and filled. -/
theorem exec_release_filled (wf : w.WellFormed) (hp : w.pool? i = some pl)
    (hgood : pl.flawed? h = none) (ht : w.pool? target = some tg)
    (hnone : tg.viewed?.or tg.full? = none) (hv : values.length = tg.stride) :
    (World.release i h).exec (w.setPool target (tg.filled values)) =
      (.ok .invalid, (w.setPool target (tg.filled values)).without i h) := by
  rw [Option.or_eq_none_iff, Pool.viewed?_eq_none_iff, Pool.full?_eq_none_iff] at hnone
  have u := update_setPool ht (Pool.update_filled (wf.pool target tg ht) hnone.1 hnone.2 hv)
  have hsome := (flawed?_eq_none_iff hp).mp hgood
  -- the old handle is not the new one, so it still names a live slot
  have hkept := contents_setPool_filled wf ht hnone.1 hnone.2 hv hsome
  obtain ⟨pl', hp', -⟩ := u.evolves.pool i pl hp
  have hgood' : pl'.flawed? h = none := (flawed?_eq_none_iff hp').mpr (hkept ▸ hsome)
  rw [exec_release hp' ((u.wellFormed wf).pool i pl' hp'), hgood']
  rfl

theorem exec_stride {ε : Type} (hp : w.pool? i = some pl) :
    (World.stride i : Action ε Nat).exec w = decided none w pl.stride w := by
  refine exec_query_decided ?_
  rw [pool_eq hp]
  rfl

/-- The pool for a record's values, or why there is none. -/
theorem poolFor_eq (hp : w.pool? i = some pl) (recorded : Nat) :
    w.poolFor (some i) recorded = .decided (mismatch? recorded pl.stride) i := by
  unfold poolFor mismatch?
  simp only [pool_eq hp, bind, Except.bind]
  by_cases he : pl.stride = recorded
  · simp [he]
    rfl
  · simp only [he, Ne.symm he, ne_eq, not_false_eq_true, if_true]
    rfl

end World

namespace Particle

variable {dim spacedim : Nat} {p source : Particle dim spacedim}

/-- A particle that holds a slot holds it in its pool, by its handle. -/
theorem slot?_eq_some_iff : p.slot? = some (i, h) ↔
    p.pool = some i ∧ p.handle = h ∧ h.isValid = true := by
  unfold slot?
  cases p.pool with
  | none => simp
  | some j =>
    by_cases hvalid : p.handle.isValid = true
    · simp only [hvalid, if_true, Option.some.injEq, Prod.mk.injEq]
      constructor
      · rintro ⟨rfl, rfl⟩; exact ⟨rfl, rfl, hvalid⟩
      · rintro ⟨rfl, rfl, -⟩; exact ⟨rfl, rfl⟩
    · simp only [hvalid, Bool.false_eq_true, if_false]
      constructor
      · intro he; cases he
      · rintro ⟨-, rfl, hv⟩; exact absurd hv hvalid

/-! ## Values -/

theorem values_of_slot (hs : p.slot? = some (i, h)) (hp : w.pool? i = some pl)
    (wf : pl.WellFormed) :
    p.values w =
      .decided (((pl.flawed? h).or pl.written?).map .pool) (pl.block h.index.toNat) := by
  unfold values
  rw [hs]
  simp only [World.pool_eq hp, bind, Except.bind, Pool.values_eq wf, Attempt.mapCause_decided]

theorem exec_overwrite (hs : p.slot? = some (i, h)) (hp : w.pool? i = some pl)
    (wf : pl.WellFormed) :
    (p.overwrite new).exec w =
      decided (((pl.flawed? h).or pl.viewed?).map .pool) w (overlay new (pl.block h.index.toNat))
        (w.setPool i (pl.withBlock h.index.toNat (overlay new (pl.block h.index.toNat)))) := by
  unfold overwrite
  rw [hs]
  exact exec_mapCause_decided (World.exec_overwrite hp wf)

/-- Values go to the slot that the particle holds. -/
theorem exec_setValues_of_slot (hs : p.slot? = some (i, h)) (hp : w.pool? i = some pl)
    (wf : pl.WellFormed) :
    (p.setValues new).exec w =
      decided ((mismatch? new.length pl.stride).or (((pl.flawed? h).or pl.viewed?).map .pool)) w p
        (w.setPool i (pl.withBlock h.index.toNat new)) := by
  obtain ⟨hpool, rfl, hvalid⟩ := slot?_eq_some_iff.mp hs
  unfold setValues
  rw [hpool]
  rw [← Option.none_or (o := (mismatch? _ _).or _)]
  refine exec_bind_decided (World.exec_stride hp) fun _ => ?_
  by_cases hv : new.length = pl.stride
  · rw [mismatch?_eq_none_iff.mpr hv, Option.none_or]
    simp only [hv, ne_eq, not_true_eq_false, if_false, hvalid, if_true]
    exact exec_bind_ok (exec_mapCause_decided (World.exec_setValues hp wf hv)) fun _ => rfl
  · simp only [ne_eq, hv, not_false_eq_true, if_true, mismatch?]
    rfl

/-- A particle without a slot takes one of its pool for the values. -/
theorem exec_setValues_of_pool (hpool : p.pool = some i) (hvalid : p.handle.isValid = false)
    (hp : w.pool? i = some pl) (wf : pl.WellFormed) :
    (p.setValues new).exec w =
      decided ((mismatch? new.length pl.stride).or ((pl.viewed?.or pl.full?).map .pool)) w
        { p with handle := pl.nextHandle } (w.setPool i (pl.filled new)) := by
  unfold setValues
  rw [hpool]
  rw [← Option.none_or (o := (mismatch? _ _).or _)]
  refine exec_bind_decided (World.exec_stride hp) fun _ => ?_
  by_cases hv : new.length = pl.stride
  · rw [mismatch?_eq_none_iff.mpr hv, Option.none_or]
    simp only [hv, ne_eq, not_true_eq_false, if_false, hvalid, Bool.false_eq_true]
    exact exec_bind_ok (World.exec_allocateFilled hp wf hv) fun _ => rfl
  · simp only [ne_eq, hv, not_false_eq_true, if_true, mismatch?]
    rfl

theorem exec_setValues_of_none (hpool : p.pool = none) :
    (p.setValues new).exec w = (Attempt.refuse .noProperties, w) := by
  unfold setValues
  rw [hpool]
  rfl

/-! ## Giving a slot back, and moving -/

/-- The particle's pool exists, and a handle that is not the invalid one is that pool's. -/
structure Placed (w : World) (p : Particle dim spacedim) : Prop where
  pool : ∀ i, p.pool = some i →
    ∃ pl, w.pool? i = some pl ∧ (p.handle.isValid = true → p.handle.pool = pl.id)
  handle : p.pool = none → p.handle = .invalid

theorem Placed.handle_eq (placed : p.Placed w) (hs : p.slot? = none) : p.handle = .invalid := by
  cases hpool : p.pool with
  | none => exact placed.handle hpool
  | some i =>
    unfold slot? at hs
    rw [hpool] at hs
    by_cases hvalid : p.handle.isValid = true
    · simp [hvalid] at hs
    · simpa [Handle.isValid] using hvalid

theorem Placed.slot (placed : p.Placed w) (hs : p.slot? = some (i, h)) :
    ∃ pl, w.pool? i = some pl ∧ h.pool = pl.id := by
  obtain ⟨hpool, rfl, hvalid⟩ := slot?_eq_some_iff.mp hs
  obtain ⟨pl, hp, hid⟩ := placed.pool i hpool
  exact ⟨pl, hp, hid hvalid⟩

/-- A particle stays placed while pools only evolve. -/
theorem Placed.evolves {w' : World} (placed : p.Placed w) (e : w.Evolves w') : p.Placed w' where
  pool i hpool := by
    obtain ⟨pl, hp, hhandle⟩ := placed.pool i hpool
    obtain ⟨pl', hp', hid, -⟩ := e.pool i pl hp
    exact ⟨pl', hp', fun hvalid => (hhandle hvalid).trans hid.symm⟩
  handle := placed.handle

/-- The world once the particle's slot is released. A slot that is not the particle's any
more is only noted. -/
def worldWithout (w : World) (p : Particle dim spacedim) : World :=
  match p.slot? with
  | none => w
  | some (i, h) =>
    match (w.pool? i).bind fun pl => pl.flawed? h with
    | none => w.without i h
    | some cause => { w with events := w.events ++ [.releaseFailed p.id cause] }

/-- Giving a slot back never fails. -/
theorem exec_releaseSlot {ε : Type} (wf : w.WellFormed) (placed : p.Placed w) :
    (p.releaseSlot : Action ε _).exec w = (.ok { p with handle := .invalid }, p.worldWithout w) := by
  unfold releaseSlot worldWithout
  cases hs : p.slot? with
  | none =>
    obtain ⟨location, reference, id, pool, handle⟩ := p
    obtain rfl : handle = .invalid := placed.handle_eq hs
    rfl
  | some slot =>
    obtain ⟨i, h⟩ := slot
    obtain ⟨pl, hp, -⟩ := placed.slot hs
    simp only [hp, exec_bind, exec_outcome, World.exec_release hp (wf.pool i pl hp),
      Option.bind_some]
    cases pl.flawed? h <;> rfl

theorem exec_drop {ε : Type} (wf : w.WellFormed) (placed : p.Placed w) :
    (p.drop : Action ε Unit).exec w = (.ok (), p.worldWithout w) := by
  unfold drop
  show ((fun _ => ()) <$> p.releaseSlot).exec w = _
  rw [exec_map, exec_releaseSlot wf placed]

/-- A particle without a slot only names another pool. -/
theorem exec_moveTo_of_none (hs : p.slot? = none) (ht : w.pool? target = some tg) :
    (p.moveTo target).exec w = (.ok { p with pool := some target }, w) := by
  unfold moveTo
  rw [exec_bind, exec_query, World.pool_eq ht, hs]
  rfl

/-- The values go to a slot of the new pool, and then the old slot is released, which is
never refused. -/
theorem exec_moveTo (wf : w.WellFormed) (hs : p.slot? = some (i, h)) (hp : w.pool? i = some pl)
    (ht : w.pool? target = some tg) :
    (p.moveTo target).exec w =
      decided ((mismatch? pl.stride tg.stride).or
          ((((pl.flawed? h).or pl.written?).map .pool).or ((tg.viewed?.or tg.full?).map .pool)))
        w { p with pool := some target, handle := tg.nextHandle }
        { (w.setPool target (tg.filled (pl.block h.index.toNat))).without i h with
          events := w.events ++ [.propertiesMigrated p.id pl.id tg.id] } := by
  have wfp := wf.pool i pl hp
  have wft := wf.pool target tg ht
  unfold moveTo
  rw [exec_bind, exec_query, World.pool_eq ht, hs]
  simp only
  rw [exec_bind, exec_query, World.pool_eq hp]
  simp only
  by_cases hstride : pl.stride = tg.stride
  · rw [mismatch?_eq_none_iff.mpr hstride, Option.none_or]
    simp only [hstride, ne_eq, not_true_eq_false, if_false]
    refine exec_bind_decided (exec_mapCause_decided (World.exec_values hp wfp)) fun hread => ?_
    rw [Option.map_eq_none_iff, Option.or_eq_none_iff] at hread
    have hlen : (pl.block h.index.toNat).length = tg.stride := by
      rw [Pool.length_block_of_flawed? wfp hread.1, hstride]
    refine exec_bind_ok (World.exec_allocateFilled ht wft hlen) fun hnone => ?_
    rw [Option.map_eq_none_iff] at hnone
    rw [exec_bind, exec_outcome, World.exec_release_filled wf hp hread.1 ht hnone hlen]
    simp only
    rw [exec_bind, exec_note, World.without_events]
    rfl
  · simp only [ne_eq, hstride, not_false_eq_true, if_true, mismatch?]
    rfl

/-! ## Copies -/

theorem exec_copy_of_none (hs : p.slot? = none) :
    p.copy.exec w = (.ok { p with handle := .invalid }, w) := by
  unfold copy
  rw [hs]
  rfl

theorem exec_copy (hs : p.slot? = some (i, h)) (hp : w.pool? i = some pl) (wf : pl.WellFormed) :
    p.copy.exec w =
      decided ((pl.viewed?.or ((pl.flawed? h).or pl.full?)).map .pool) w
        { p with handle := pl.nextHandle } (w.setPool i (pl.filled (pl.block h.index.toNat))) := by
  unfold copy
  rw [hs]
  exact exec_bind_ok (exec_mapCause_decided (World.exec_duplicate hp wf)) fun _ => rfl

theorem exec_copyFrom_of_none (wf : w.WellFormed) (placed : p.Placed w)
    (hs : source.slot? = none) :
    (p.copyFrom source).exec w = (.ok { source with handle := .invalid }, p.worldWithout w) := by
  unfold copyFrom
  rw [hs]
  simp only
  rw [exec_bind, exec_releaseSlot wf placed]
  rfl

/-- A slot of the source's pool is used again. -/
theorem exec_copyFrom_within (hs : source.slot? = some (i, h)) (hk : p.slot? = some (i, k))
    (hp : w.pool? i = some pl) (wf : pl.WellFormed) :
    (p.copyFrom source).exec w =
      decided ((((pl.flawed? h).or pl.written?).map .pool).or
          (((pl.flawed? k).or pl.viewed?).map .pool))
        w { source with handle := k }
        (w.setPool i (pl.withBlock k.index.toNat (pl.block h.index.toNat))) := by
  obtain ⟨-, rfl, -⟩ := slot?_eq_some_iff.mp hk
  have hholds : p.holdsSlotOf i = true := by simp [holdsSlotOf, hk]
  unfold copyFrom
  rw [hs]
  simp only [hholds, if_true]
  refine exec_bind_decided (exec_mapCause_decided (World.exec_values hp wf)) fun hread => ?_
  rw [Option.map_eq_none_iff, Option.or_eq_none_iff] at hread
  have hlen := Pool.length_block_of_flawed? wf hread.1
  exact exec_bind_ok (exec_mapCause_decided (World.exec_setValues hp wf hlen)) fun _ => rfl

/-- In every other case a new slot is taken first, and then the old one given back. -/
theorem exec_copyFrom_across (wf : w.WellFormed) (placed : p.Placed w)
    (hs : source.slot? = some (i, h)) (hk : ∀ k, p.slot? ≠ some (i, k))
    (hp : w.pool? i = some pl) :
    (p.copyFrom source).exec w =
      decided ((pl.viewed?.or ((pl.flawed? h).or pl.full?)).map .pool) w
        { source with handle := pl.nextHandle }
        (p.worldWithout (w.setPool i (pl.filled (pl.block h.index.toNat)))) := by
  have wfp := wf.pool i pl hp
  have hholds : p.holdsSlotOf i = false := by
    unfold holdsSlotOf
    cases hslot : p.slot? with
    | none => rfl
    | some slot =>
      have hne : slot.1 ≠ i := fun he => hk slot.2 (by rw [hslot, ← he])
      simpa using hne
  unfold copyFrom
  rw [hs]
  simp only [hholds, Bool.false_eq_true, if_false]
  refine exec_bind_ok (exec_mapCause_decided (World.exec_duplicate hp wfp)) fun hnone => ?_
  rw [Option.map_eq_none_iff, Option.or_eq_none_iff, Option.or_eq_none_iff,
    Pool.viewed?_eq_none_iff, Pool.full?_eq_none_iff] at hnone
  obtain ⟨hview, hread, hroom⟩ := hnone
  have hlen := Pool.length_block_of_flawed? wfp hread
  have u := World.update_setPool hp (Pool.update_filled wfp hview hroom hlen)
  rw [exec_bind, exec_releaseSlot (u.wellFormed wf) (placed.evolves u.evolves)]
  rfl

/-! ## Records -/

variable {pool : Option Nat} {r : Record dim spacedim}

theorem propertyCount_of_none (hs : p.slot? = none) : p.propertyCount w = 0 := by
  unfold propertyCount
  rw [hs]

theorem propertyCount_of_slot (hs : p.slot? = some (i, h)) (hp : w.pool? i = some pl) :
    p.propertyCount w = pl.stride := by
  unfold propertyCount
  rw [hs]
  simp [hp]

theorem exec_poolFor (hp : w.pool? i = some pl) (recorded : Nat) :
    (query fun w => w.poolFor (some i) recorded).exec w =
      decided (mismatch? recorded pl.stride) w i w :=
  exec_query_decided (World.poolFor_eq hp recorded)

/-- A record without values never touches a pool. -/
theorem exec_ofRecord_of_empty (hv : r.values = []) :
    (ofRecord pool r).exec w =
      (.ok { bare r.location r.reference r.id with pool }, w) := by
  unfold ofRecord
  rw [hv]
  rfl

theorem exec_ofRecord_of_none (hv : r.values ≠ []) :
    (ofRecord none r).exec w = (Attempt.refuse (.missingPool r.values.length), w) := by
  have hempty : r.values.isEmpty = false := by simpa using hv
  unfold ofRecord
  simp only [hempty, Bool.false_eq_true, if_false]
  rfl

theorem exec_ofRecord_of_pool (hv : r.values ≠ []) (hp : w.pool? i = some pl)
    (wf : pl.WellFormed) :
    (ofRecord (some i) r).exec w =
      decided ((mismatch? r.values.length pl.stride).or ((pl.viewed?.or pl.full?).map .pool)) w
        { bare r.location r.reference r.id with pool := some i, handle := pl.nextHandle }
        (w.setPool i (pl.filled r.values)) := by
  have hempty : r.values.isEmpty = false := by simpa using hv
  unfold ofRecord
  simp only [hempty, Bool.false_eq_true, if_false]
  refine exec_bind_decided (exec_poolFor hp _) fun hsame => ?_
  exact exec_bind_ok (World.exec_allocateFilled hp wf (mismatch?_eq_none_iff.mp hsame)) fun _ => rfl

/-- The particle with a record's coordinates and id. -/
def relabelled (p : Particle dim spacedim) (r : Record dim spacedim) : Particle dim spacedim :=
  { p with location := r.location, reference := r.reference, id := r.id }

theorem exec_absorb_of_empty (hv : r.values = []) :
    (p.absorb r).exec w = (.ok (p.relabelled r), w) := by
  unfold absorb
  rw [hv]
  rfl

theorem exec_absorb_of_none (hv : r.values ≠ []) (hpool : p.pool = none) :
    (p.absorb r).exec w = (Attempt.refuse (.missingPool r.values.length), w) := by
  have hempty : r.values.isEmpty = false := by simpa using hv
  unfold absorb
  simp only [hempty, Bool.false_eq_true, if_false, hpool]
  rfl

theorem exec_absorb_of_slot (hv : r.values ≠ []) (hs : p.slot? = some (i, h))
    (hp : w.pool? i = some pl) (wf : pl.WellFormed) :
    (p.absorb r).exec w =
      decided ((mismatch? r.values.length pl.stride).or (((pl.flawed? h).or pl.viewed?).map .pool)) w
        (p.relabelled r) (w.setPool i (pl.withBlock h.index.toNat r.values)) := by
  obtain ⟨hpool, rfl, hvalid⟩ := slot?_eq_some_iff.mp hs
  have hempty : r.values.isEmpty = false := by simpa using hv
  unfold absorb
  simp only [hempty, Bool.false_eq_true, if_false, hpool]
  refine exec_bind_decided (exec_poolFor hp _) fun hsame => ?_
  simp only [hvalid, if_true]
  exact exec_bind_ok
    (exec_mapCause_decided (World.exec_setValues hp wf (mismatch?_eq_none_iff.mp hsame)))
    fun _ => by rw [relabelled, hpool, exec_pure]

theorem exec_absorb_of_pool (hv : r.values ≠ []) (hpool : p.pool = some i)
    (hvalid : p.handle.isValid = false) (hp : w.pool? i = some pl) (wf : pl.WellFormed) :
    (p.absorb r).exec w =
      decided ((mismatch? r.values.length pl.stride).or ((pl.viewed?.or pl.full?).map .pool)) w
        { p.relabelled r with handle := pl.nextHandle } (w.setPool i (pl.filled r.values)) := by
  have hempty : r.values.isEmpty = false := by simpa using hv
  unfold absorb
  simp only [hempty, Bool.false_eq_true, if_false, hpool]
  refine exec_bind_decided (exec_poolFor hp _) fun hsame => ?_
  simp only [hvalid, Bool.false_eq_true, if_false]
  exact exec_bind_ok (World.exec_allocateFilled hp wf (mismatch?_eq_none_iff.mp hsame))
    fun _ => by simp only [exec_pure, relabelled, hpool]

/-! ## Bytes -/

variable {input rest : Bytes}

theorem exec_ofBytes_error {cause : RecordError}
    (hd : (Record.decoder dim spacedim).run input = .error cause) :
    (ofBytes pool input : Action ParticleError (Particle dim spacedim × Bytes)).exec w =
      (Attempt.refuse (.malformed cause), w) := by
  unfold ofBytes
  rw [exec_bind, exec_ofAttempt, Attempt.ofDecoder, hd]
  rfl

theorem exec_ofBytes_ok (hd : (Record.decoder dim spacedim).run input = .ok (r, rest)) :
    (ofBytes pool input).exec w = ((fun p => (p, rest)) <$> ofRecord pool r).exec w := by
  unfold ofBytes
  rw [exec_bind, exec_ofAttempt, Attempt.ofDecoder, hd, map_eq_pure_bind]

theorem exec_update_error {cause : RecordError}
    (hd : (Record.decoder dim spacedim).run input = .error cause) :
    (p.update input).exec w = (Attempt.refuse (.malformed cause), w) := by
  unfold update
  rw [exec_bind, exec_ofAttempt, Attempt.ofDecoder, hd]
  rfl

theorem exec_update_of_none (hd : (Record.decoder dim spacedim).run input = .ok (r, rest))
    (hs : p.slot? = none) :
    (p.update input).exec w =
      decided (mismatch? r.values.length 0) w (p.relabelled r, rest) w := by
  unfold update
  rw [exec_bind, exec_ofAttempt, Attempt.ofDecoder, hd]
  simp only
  rw [exec_bind, exec_query, propertyCount_of_none hs, hs]
  by_cases hv : r.values.length = 0
  · rw [mismatch?_eq_none_iff.mpr hv]
    simp only [pure, Except.pure, hv, ne_eq, not_true_eq_false, if_false]
    rfl
  · simp only [pure, Except.pure, ne_eq, hv, not_false_eq_true, if_true, mismatch?]
    rfl

theorem exec_update_of_slot (hd : (Record.decoder dim spacedim).run input = .ok (r, rest))
    (hs : p.slot? = some (i, h)) (hp : w.pool? i = some pl) (wf : pl.WellFormed) :
    (p.update input).exec w =
      decided ((mismatch? r.values.length pl.stride).or (((pl.flawed? h).or pl.viewed?).map .pool)) w
        (p.relabelled r, rest) (w.setPool i (pl.withBlock h.index.toNat r.values)) := by
  unfold update
  rw [exec_bind, exec_ofAttempt, Attempt.ofDecoder, hd]
  simp only
  rw [exec_bind, exec_query, propertyCount_of_slot hs hp, hs]
  by_cases hv : r.values.length = pl.stride
  · rw [mismatch?_eq_none_iff.mpr hv, Option.none_or]
    simp only [pure, Except.pure, hv, ne_eq, not_true_eq_false, if_false]
    exact exec_bind_ok (exec_mapCause_decided (World.exec_setValues hp wf hv)) fun _ => rfl
  · simp only [pure, Except.pure, ne_eq, hv, not_false_eq_true, if_true, mismatch?]
    rfl

end Particle

end ParticleStore
