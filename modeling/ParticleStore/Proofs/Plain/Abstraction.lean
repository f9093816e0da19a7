/-
ParticleStore.Proofs.Plain.Abstraction — pools and particles as plain ones.

The plain pool of a pool forgets its table, its stack and its scalars. The plain particle
of a particle has the values that its handle shows, and is marked if a write view of them is
open. Both are functions, so that what an operation does to slots and scalars can be
read as what it does to plain pools and plain particles: taking, filling and releasing
a slot (`plain_filled`, `plain_without`) count one particle more or less, and a
particle whose slot is written to has the new values (`plain_written`).
-/
import ParticleStore.Proofs.World.Views
import ParticleStore.Proofs.Particle.Trades
import ParticleStore.Proofs.Plain.Particle

namespace ParticleStore

namespace Pool

variable {p : Pool} {h : Handle} {i : Nat} {values : List Scalar}

/-- A pool without its slots. -/
def plain (p : Pool) : PlainPool :=
  ⟨p.id, p.stride, p.config.slotLimit, p.live, p.readers, p.writers⟩

@[simp] theorem plain_viewed? : p.plain.viewed? = p.viewed? := by
  unfold PlainPool.viewed? viewed? isViewed
  by_cases hviewed : 0 < p.readers + p.writers <;> simp [plain, hviewed]

@[simp] theorem plain_written? : p.plain.written? = p.written? := rfl

@[simp] theorem plain_full? : p.plain.full? = p.full? := rfl

@[simp] theorem plain_noRoom? : p.plain.noRoom? = p.viewed?.or p.full? := by
  simp [PlainPool.noRoom?]

@[simp] theorem plain_withBlock : (p.withBlock i values).plain = p.plain := rfl

theorem plain_filled : (p.filled values).plain = { p.plain with live := p.live + 1 } := by
  simp [plain, filled]

theorem plain_released : (p.released h).plain = { p.plain with live := p.live - 1 } := rfl

theorem plain_viewOpened (writable : Bool) :
    (p.viewOpened writable).plain = p.plain.opened writable := by
  cases writable <;> rfl

theorem plain_closeView (v : View) : (p.closeView v).plain = p.plain.closed v.writable := by
  unfold closeView PlainPool.closed
  cases v.writable <;> rfl

theorem plain_reserve (n : Nat) : (p.reserve n).plain = p.plain := by
  obtain ⟨reserved, heq⟩ := p.reserve_eq n
  rw [heq]
  rfl

end Pool

namespace World

variable {w w' : World} {i j : Nat} {p p' : Pool} {h : Handle} {values : List Scalar}
  {held : List HeldSlot}

/-- The pools without their slots. -/
def plain (w : World) : PlainPools := w.pools.map Pool.plain

theorem getElem?_plain (w : World) (i : Nat) : w.plain[i]? = (w.pool? i).map Pool.plain :=
  List.getElem?_map

theorem isSome_getElem?_plain : (w.plain[i]?).isSome = (w.pool? i).isSome := by
  rw [getElem?_plain, Option.isSome_map]

theorem check_plain (hp : w.pool? i = some p) (cause : PlainPool → Option PoolError) :
    w.plain.check i cause = (cause p.plain).map .pool := by
  rw [PlainPools.check, getElem?_plain, hp]
  rfl

theorem stride_plain (hp : w.pool? i = some p) : w.plain.stride i = p.stride := by
  rw [PlainPools.stride, getElem?_plain, hp]
  rfl

/-- Worlds whose pools look alike position by position are alike. -/
theorem plain_eq_of_pool? {f : PlainPool → PlainPool} (hlength : w'.pools.length = w.pools.length)
    (hself : ∀ p', w'.pool? i = some p' → ∃ p, w.pool? i = some p ∧ p'.plain = f p.plain)
    (hothers : ∀ j ≠ i, w'.pool? j = w.pool? j) : w'.plain = w.plain.modify i f := by
  refine List.ext_getElem? fun j => ?_
  rw [getElem?_plain, List.getElem?_modify, getElem?_plain]
  by_cases hj : i = j
  · subst hj
    cases hp' : w'.pool? i with
    | none =>
      cases hp : w.pool? i with
      | none => rfl
      | some p =>
        obtain ⟨p', hp''⟩ := exists_pool? hlength.symm hp
        rw [hp'] at hp''
        cases hp''
    | some p' =>
      obtain ⟨p, hp, heq⟩ := hself p' hp'
      simp [hp, heq]
  · rw [hothers j (Ne.symm hj)]
    simp [hj]

theorem plain_setPool {f : PlainPool → PlainPool} (hp : w.pool? i = some p)
    (heq : p'.plain = f p.plain) : (w.setPool i p').plain = w.plain.modify i f := by
  refine plain_eq_of_pool? List.length_set (fun q hq => ?_) fun j hj => pool?_setPool_of_ne hj
  rw [pool?_setPool_self (by simp [hp])] at hq
  cases hq
  exact ⟨p, hp, heq⟩

theorem plain_setPool_self (hp : w.pool? i = some p) (heq : p'.plain = p.plain) :
    (w.setPool i p').plain = w.plain := by
  rw [plain_setPool (f := id) hp heq, List.modify_id]

theorem plain_filled (hp : w.pool? i = some p) :
    (w.setPool i (p.filled values)).plain = w.plain.taken i :=
  plain_setPool hp Pool.plain_filled

theorem plain_without (hp : w.pool? i = some p) : (w.without i h).plain = w.plain.released i := by
  rw [without_eq hp]
  exact plain_setPool hp Pool.plain_released

/-- Who owns the same slots in the end has left the pools as they were. -/
theorem plain_eq_of_owns (e : w.Evolves w') (owns : w.Owns held) (owns' : w'.Owns held) :
    w'.plain = w.plain := by
  refine List.ext_getElem? fun j => ?_
  rw [getElem?_plain, getElem?_plain]
  cases hp : w.pool? j with
  | none =>
    cases hp' : w'.pool? j with
    | none => rfl
    | some p' =>
      obtain ⟨p, hp''⟩ := exists_pool? e.length_eq hp'
      rw [hp] at hp''
      cases hp''
  | some p =>
    obtain ⟨p', hp', hid, hconfig, hreaders, hwriters, -⟩ := e.pool j p hp
    have hlive : p'.live = p.live := by rw [owns'.count j p' hp', owns.count j p hp]
    rw [hp', Option.map_some, Option.map_some, Pool.plain, Pool.plain, Pool.stride, Pool.stride, hid,
      hconfig, hlive, hreaders, hwriters]

end World

namespace Particle

open World

variable {dim spacedim : Nat} {w w' : World} {views : List OpenView} {i : Nat} {pl : Pool}
  {h : Handle} {values : List Scalar} {slot : HeldSlot} {p p' : Particle dim spacedim}

/-- The particle with the values that its handle shows. -/
def plain (views : List OpenView) (w : World) (p : Particle dim spacedim) :
    PlainParticle dim spacedim where
  location := p.location
  reference := p.reference
  id := p.id
  pool := p.pool
  own := p.slot?.bind fun slot =>
    (w.contents slot.1 slot.2).map fun values => ⟨values, lent views slot⟩

/-- A particle is the same plain one as long as its slot shows the same values. -/
theorem plain_congr
    (hframe : ∀ slot ∈ p.slots, w'.contents slot.1 slot.2 = w.contents slot.1 slot.2) :
    p.plain views w' = p.plain views w := by
  unfold plain
  cases hs : p.slot? with
  | none => rfl
  | some slot =>
    have hmem : slot ∈ p.slots := by
      rw [slots, hs]
      exact List.mem_singleton_self _
    simp only [Option.bind_some, hframe slot hmem]

/-- A particle without a slot has no values. -/
theorem plain_of_none (hs : p.slot? = none) :
    p.plain views w = ⟨p.location, p.reference, p.id, p.pool, none⟩ := by
  rw [plain, hs]
  rfl

theorem plain_of_invalid (hhandle : p.handle = .invalid) :
    p.plain views w = ⟨p.location, p.reference, p.id, p.pool, none⟩ :=
  plain_of_none (by simpa [slots] using slots_of_invalid hhandle)

theorem held?_of_none (hs : p.slot? = none) : (p.plain views w).held? = none := by
  rw [plain_of_none hs, PlainParticle.held?]
  cases p.pool <;> rfl

/-- The particle owns its slot: the handle that it holds shows values. -/
structure Owning (w : World) (p : Particle dim spacedim) : Prop extends p.Placed w where
  live : ∀ slot ∈ p.slots, (w.contents slot.1 slot.2).isSome

/-- A particle that owns a slot has the values in it. -/
theorem Owning.held (views : List OpenView) (owning : p.Owning w) (wf : w.WellFormed)
    (hs : p.slot? = some (i, h)) :
    ∃ pl, w.pool? i = some pl ∧ pl.WellFormed ∧ pl.flawed? h = none ∧
      (pl.block h.index.toNat).length = pl.stride ∧ p.pool = some i ∧
      (p.plain views w).own = some ⟨pl.block h.index.toNat, lent views (i, h)⟩ ∧
      (p.plain views w).held? = some (i, ⟨pl.block h.index.toNat, lent views (i, h)⟩) := by
  obtain ⟨pl, hp, -⟩ := owning.slot hs
  have wfp := wf.pool i pl hp
  have hlive := owning.live (i, h) (by rw [slots_of_slot hs]; exact List.mem_singleton_self _)
  simp only [contents_of_pool hp] at hlive
  have hgood := Pool.flawed?_eq_none_iff_contents.mpr hlive
  have hlen := Pool.length_block_of_flawed? wfp hgood
  have hpool := (slot?_eq_some_iff.mp hs).1
  have hown : (p.plain views w).own = some ⟨pl.block h.index.toNat, lent views (i, h)⟩ := by
    rw [plain, hs, Option.bind_some, contents_of_pool hp, Pool.contents_eq_block wfp hgood]
    rfl
  refine ⟨pl, hp, wfp, hgood, hlen, hpool, hown, ?_⟩
  unfold PlainParticle.held?
  rw [hown, show (p.plain views w).pool = some i from hpool]

/-- A particle whose slot shows values has them for its own. -/
theorem plain_of_contents (hs : p.slot? = some slot)
    (hshown : w.contents slot.1 slot.2 = some values) (hfree : lent views slot = false) :
    p.plain views w = ⟨p.location, p.reference, p.id, p.pool, some { values }⟩ := by
  rw [plain, hs, Option.bind_some, hshown, Option.map_some, hfree]

/-- A particle takes a new slot for values. -/
theorem plain_filled (vw : w.Viewed views) (wf : w.WellFormed) (hp : w.pool? i = some pl)
    (hnone : pl.viewed?.or pl.full? = none) (hv : values.length = pl.stride)
    (hpool : p.pool = some i) :
    { p with handle := pl.nextHandle }.plain views (w.setPool i (pl.filled values)) =
      ⟨p.location, p.reference, p.id, p.pool, some { values }⟩ := by
  have wfp := wf.pool i pl hp
  rw [Option.or_eq_none_iff, Pool.viewed?_eq_none_iff, Pool.full?_eq_none_iff] at hnone
  have hs : { p with handle := pl.nextHandle }.slot? = some (i, pl.nextHandle) :=
    slot?_eq_some_iff.mpr ⟨hpool, rfl, wfp.isValid_of_pool rfl⟩
  have u := update_setPool hp (Pool.update_filled wfp hnone.1 hnone.2 hv)
  exact plain_of_contents hs u.contents_self (vw.lent_eq_false hp hnone.1)

/-- Values are written to a particle's slot. -/
theorem plain_written (vw : w.Viewed views) (wf : w.WellFormed) (hs : p.slot? = some (i, h))
    (hp : w.pool? i = some pl) (hnone : (pl.flawed? h).or pl.viewed? = none)
    (hv : values.length = pl.stride) :
    p.plain views (w.setPool i (pl.withBlock h.index.toNat values)) =
      ⟨p.location, p.reference, p.id, p.pool, some { values }⟩ := by
  have wfp := wf.pool i pl hp
  rw [Option.or_eq_none_iff, Pool.viewed?_eq_none_iff, Pool.flawed?_eq_none_iff_contents] at hnone
  have u := update_setPool hp (Pool.update_withBlock wfp hnone.1 hnone.2 hv)
  exact plain_of_contents hs u.contents_self (vw.lent_eq_false hp hnone.2)

/-- A slot that is not the particle's shows what it showed when the particle's is released. -/
theorem contents_worldWithout (wf : w.WellFormed) (placed : p.Placed w) (hout : slot ∉ p.slots) :
    (p.worldWithout w).contents slot.1 slot.2 = w.contents slot.1 slot.2 := by
  unfold worldWithout
  cases hs : p.slot? with
  | none => rfl
  | some held =>
    obtain ⟨i, h⟩ := held
    obtain ⟨pl, hp, -⟩ := placed.slot hs
    simp only [hp, Option.bind_some]
    cases hf : pl.flawed? h with
    | some cause => rfl
    | none =>
      have hsome := (flawed?_eq_none_iff hp).mp hf
      refine (update_without wf hsome).contents_of_ne ?_
      rintro ⟨hi, hh⟩
      refine hout ?_
      rw [slots_of_slot hs, ← hi, ← hh]
      exact List.mem_singleton_self _

/-- The slot that a particle owns is released, and no longer counted. -/
theorem plain_worldWithout (views : List OpenView) (owning : p.Owning w) (wf : w.WellFormed) :
    (p.worldWithout w).plain = (p.plain views w).release w.plain := by
  unfold worldWithout PlainParticle.release
  cases hs : p.slot? with
  | none => simp only [held?_of_none hs]
  | some held =>
    obtain ⟨i, h⟩ := held
    obtain ⟨pl, hp, -, hgood, -, -, -, hheld⟩ := owning.held views wf hs
    simp only [hp, Option.bind_some, hgood, hheld]
    exact World.plain_without hp

end Particle

end ParticleStore
