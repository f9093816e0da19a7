/-
ParticleStore.Proofs.Particle.Trades — operations on particles as trades of slots.

Every operation on a particle either is refused and leaves the world as it was, or it
succeeds and trades the particle's slot (`Settles`). The lemmas named `_settles` say
which slots are in the particle's hands before and after. They hold for particles
whose handle names no live slot any more as well as for those that own their slot.
-/
import ParticleStore.Proofs.Particle.Operations
import ParticleStore.Proofs.World.Ownership

namespace ParticleStore

/-- The action is refused and changes nothing, or it succeeds with a result and a world as
`post` says. -/
def Action.Settles {ε α : Type} (action : Action ε α) (w : World) (post : α → World → Prop) : Prop :=
  ∃ cause a w', action.exec w = Action.decided cause w a w' ∧ (cause = none → post a w')

namespace Action

variable {ε α β : Type} {action : Action ε α} {w w' : World} {post : α → World → Prop} {a : α}

theorem settles_ok (he : action.exec w = (.ok a, w')) (hpost : post a w') : action.Settles w post :=
  ⟨none, a, w', he, fun _ => hpost⟩

theorem settles_decided {cause : Option ε} (he : action.exec w = decided cause w a w')
    (hpost : cause = none → post a w') : action.Settles w post :=
  ⟨cause, a, w', he, hpost⟩

/-- A refused action needs no result to be described by. -/
theorem settles_refused [Inhabited α] {e : ε} (he : action.exec w = (Attempt.refuse e, w)) :
    action.Settles w post :=
  ⟨some e, default, w, he, fun hnone => by cases hnone⟩

namespace Settles

theorem ok (s : action.Settles w post) (he : action.exec w = (.ok a, w')) : post a w' := by
  obtain ⟨cause, a', w₁, heq, hpost⟩ := s
  rw [heq] at he
  cases cause with
  | none =>
    cases he
    exact hpost rfl
  | some e => cases he

theorem map (s : action.Settles w post) (f : α → β) (post' : β → World → Prop)
    (himp : ∀ a w', post a w' → post' (f a) w') : (f <$> action).Settles w post' := by
  obtain ⟨cause, a, w', heq, hpost⟩ := s
  refine ⟨cause, f a, w', ?_, fun hnone => himp a w' (hpost hnone)⟩
  rw [exec_map, heq]
  cases cause <;> rfl

end Settles

end Action

open ParticleStore.Action World

variable {dim spacedim : Nat} {w w' : World} {i target : Nat} {pl tg : Pool} {h : Handle}
  {values new : List Scalar} {held : List HeldSlot} {p source : Particle dim spacedim}

namespace World

/-- A slot is taken for values. -/
theorem trade_filled (held : List HeldSlot) (wf : w.WellFormed) (hp : w.pool? i = some pl)
    (hnone : pl.viewed?.or pl.full? = none) (hv : values.length = pl.stride) :
    Trade w held (w.setPool i (pl.filled values)) ((i, pl.nextHandle) :: held) := by
  have wfp := wf.pool i pl hp
  rw [Option.or_eq_none_iff, Pool.viewed?_eq_none_iff, Pool.full?_eq_none_iff] at hnone
  have hfresh : w.contents i pl.nextHandle = none := by
    rw [contents_of_pool hp, Pool.contents_nextHandle wfp]
  exact .take hfresh (update_setPool hp (Pool.update_filled wfp hnone.1 hnone.2 hv))

/-- Values are written to a slot in hand. -/
theorem trade_written (wf : w.WellFormed) (hp : w.pool? i = some pl) (hmem : (i, h) ∈ held)
    (hnone : (pl.flawed? h).or pl.viewed? = none) (hv : values.length = pl.stride) :
    Trade w held (w.setPool i (pl.withBlock h.index.toNat values)) held := by
  rw [Option.or_eq_none_iff, Pool.viewed?_eq_none_iff, Pool.flawed?_eq_none_iff_contents] at hnone
  have hsome : (w.contents i h).isSome := by
    rw [contents_of_pool hp]
    exact hnone.1
  exact .write hmem hsome
    (update_setPool hp (Pool.update_withBlock (wf.pool i pl hp) hnone.1 hnone.2 hv))

end World

namespace Particle

/-- The slots in a particle's hands: one, or none. -/
def slots (p : Particle dim spacedim) : List HeldSlot := p.slot?.toList

theorem slots_of_slot (hs : p.slot? = some (i, h)) : p.slots = [(i, h)] := by
  rw [slots, hs]
  rfl

theorem slots_of_none (hs : p.slot? = none) : p.slots = [] := by
  rw [slots, hs]
  rfl

/-- A particle whose handle is not the invalid one holds the slot. -/
theorem slots_of_pool (hpool : p.pool = some i) (hvalid : p.handle.isValid = true) :
    p.slots = [(i, p.handle)] :=
  slots_of_slot (slot?_eq_some_iff.mpr ⟨hpool, rfl, hvalid⟩)

theorem slots_of_invalid (hhandle : p.handle = .invalid) : p.slots = [] := by
  refine slots_of_none ?_
  unfold slot?
  cases p.pool with
  | none => rfl
  | some i => simp [hhandle, Handle.isValid]

/-- The slot depends on the pool and the handle only. -/
theorem slots_congr {p' : Particle dim spacedim} (hpool : p'.pool = p.pool)
    (hhandle : p'.handle = p.handle) : p'.slots = p.slots := by
  simp only [slots, slot?, hpool, hhandle]

theorem Placed.congr {p' : Particle dim spacedim} (placed : p.Placed w) (hpool : p'.pool = p.pool)
    (hhandle : p'.handle = p.handle) : p'.Placed w := by
  refine ⟨?_, ?_⟩
  · rw [hpool, hhandle]
    exact placed.pool
  · rw [hpool, hhandle]
    exact placed.handle

/-- A particle with a handle of its pool is placed. -/
theorem placed_of_handle (hpool : p.pool = some i) (hp : w.pool? i = some pl)
    (hid : p.handle.pool = pl.id) : p.Placed w where
  pool j hj := by
    rw [hpool] at hj
    cases hj
    exact ⟨pl, hp, fun _ => hid⟩
  handle hnone := by
    rw [hpool] at hnone
    cases hnone

/-- A particle with the invalid handle is placed if its pool exists. -/
theorem placed_of_invalid (hhandle : p.handle = .invalid)
    (hpool : ∀ i, p.pool = some i → ∃ pl, w.pool? i = some pl) : p.Placed w where
  pool i hi := by
    obtain ⟨pl, hp⟩ := hpool i hi
    refine ⟨pl, hp, fun hvalid => ?_⟩
    rw [hhandle] at hvalid
    simp [Handle.isValid] at hvalid
  handle _ := hhandle

theorem Placed.pool? (placed : p.Placed w) (i : Nat) (hi : p.pool = some i) :
    ∃ pl, w.pool? i = some pl := by
  obtain ⟨pl, hp, -⟩ := placed.pool i hi
  exact ⟨pl, hp⟩

/-! ## What an operation makes of the slots in its hands -/

/-- From the slots `held` in the world `w` comes the particle `p` in the world `w'`. -/
structure MadeFrom (held : List HeldSlot) (w : World) (p : Particle dim spacedim) (w' : World) :
    Prop where
  trade : Trade w held w' p.slots
  placed : p.Placed w'

/-- The particle with a new slot of its pool for values. -/
theorem madeFrom_filled (wf : w.WellFormed) (hp : w.pool? i = some pl)
    (hnone : pl.viewed?.or pl.full? = none) (hv : values.length = pl.stride)
    (hpool : p.pool = some i) :
    { p with handle := pl.nextHandle }.MadeFrom [] w (w.setPool i (pl.filled values)) := by
  have t := trade_filled [] wf hp hnone hv
  obtain ⟨pl', hp', hid, -⟩ := t.evolves.pool i pl hp
  have hslots : { p with handle := pl.nextHandle }.slots = [(i, pl.nextHandle)] :=
    slots_of_pool hpool ((wf.pool i pl hp).isValid_of_pool rfl)
  exact ⟨hslots ▸ t, placed_of_handle hpool hp' hid.symm⟩

/-- A particle that keeps its pool and handle keeps its slot. -/
theorem madeFrom_written {p' : Particle dim spacedim} (wf : w.WellFormed) (placed : p.Placed w)
    (hs : p.slot? = some (i, h)) (hp : w.pool? i = some pl)
    (hnone : (pl.flawed? h).or pl.viewed? = none) (hv : values.length = pl.stride)
    (hpool : p'.pool = p.pool) (hhandle : p'.handle = p.handle) :
    p'.MadeFrom p.slots w (w.setPool i (pl.withBlock h.index.toNat values)) := by
  have hmem : (i, h) ∈ p.slots := by
    rw [slots_of_slot hs]
    exact List.mem_singleton_self _
  have t := trade_written wf hp hmem hnone hv
  refine ⟨?_, (placed.evolves t.evolves).congr hpool hhandle⟩
  rw [slots_congr hpool hhandle]
  exact t

/-- A particle that keeps its pool and handle, in a world that is left alone. -/
theorem madeFrom_self {p' : Particle dim spacedim} (placed : p.Placed w)
    (hpool : p'.pool = p.pool) (hhandle : p'.handle = p.handle) : p'.MadeFrom p.slots w w := by
  refine ⟨?_, placed.congr hpool hhandle⟩
  rw [slots_congr hpool hhandle]
  exact .refl w _

/-- A particle without a slot, in a world that is left alone. -/
theorem madeFrom_invalid (hhandle : p.handle = .invalid)
    (hpool : ∀ i, p.pool = some i → ∃ pl, w.pool? i = some pl) : p.MadeFrom [] w w := by
  refine ⟨?_, placed_of_invalid hhandle hpool⟩
  rw [slots_of_invalid hhandle]
  exact .refl w _

/-- A slot given back, or forgotten, is out of the particle's hands. -/
theorem trade_without (held : List HeldSlot) (wf : w.WellFormed) (placed : p.Placed w) :
    Trade w (p.slots ++ held) (p.worldWithout w) held := by
  unfold worldWithout
  cases hs : p.slot? with
  | none =>
    rw [slots_of_none hs]
    exact .refl w held
  | some slot =>
    obtain ⟨i, h⟩ := slot
    obtain ⟨pl, hp, -⟩ := placed.slot hs
    rw [slots_of_slot hs, List.singleton_append]
    simp only [hp, Option.bind_some]
    cases hf : pl.flawed? h with
    | none =>
      have hsome := (World.flawed?_eq_none_iff hp).mp hf
      exact .release hsome (World.update_without wf hsome)
    | some cause =>
      refine .forget ?_
      have hnone : ¬ (w.contents i h).isSome := by
        rw [← World.flawed?_eq_none_iff hp, hf]
        simp
      simpa using hnone

/-! ## Every operation -/

theorem setValues_settles (new : List Scalar) (wf : w.WellFormed) (placed : p.Placed w) :
    (p.setValues new).Settles w fun p' w' => p'.MadeFrom p.slots w w' := by
  cases hpool : p.pool with
  | none => exact settles_refused (exec_setValues_of_none hpool)
  | some i =>
    obtain ⟨pl, hp, -⟩ := placed.pool i hpool
    have wfp := wf.pool i pl hp
    by_cases hvalid : p.handle.isValid = true
    · have hs : p.slot? = some (i, p.handle) := slot?_eq_some_iff.mpr ⟨hpool, rfl, hvalid⟩
      refine settles_decided (exec_setValues_of_slot hs hp wfp) fun hnone => ?_
      rw [Option.or_eq_none_iff, mismatch?_eq_none_iff, Option.map_eq_none_iff] at hnone
      exact madeFrom_written wf placed hs hp hnone.2 hnone.1 rfl rfl
    · have hinvalid : p.handle = .invalid := by simpa [Handle.isValid] using hvalid
      refine settles_decided
        (exec_setValues_of_pool hpool (Bool.eq_false_iff.mpr hvalid) hp wfp) fun hnone => ?_
      rw [Option.or_eq_none_iff, mismatch?_eq_none_iff, Option.map_eq_none_iff] at hnone
      rw [slots_of_invalid hinvalid]
      exact madeFrom_filled wf hp hnone.2 hnone.1 hpool

theorem overwrite_settles (new : List Scalar) (wf : w.WellFormed) (placed : p.Placed w) :
    (p.overwrite new).Settles w fun _ w' => Trade w p.slots w' p.slots := by
  cases hs : p.slot? with
  | none =>
    refine settles_refused (e := .noProperties) ?_
    unfold overwrite
    rw [hs]
    rfl
  | some slot =>
    obtain ⟨i, h⟩ := slot
    obtain ⟨pl, hp, -⟩ := placed.slot hs
    have wfp := wf.pool i pl hp
    refine settles_decided (exec_overwrite hs hp wfp) fun hnone => ?_
    rw [Option.map_eq_none_iff] at hnone
    have hgood := (Option.or_eq_none_iff.mp hnone).1
    have hlen : (overlay new (pl.block h.index.toNat)).length = pl.stride := by
      rw [length_overlay, Pool.length_block_of_flawed? wfp hgood]
    have hmem : (i, h) ∈ p.slots := by
      rw [slots_of_slot hs]
      exact List.mem_singleton_self _
    exact trade_written wf hp hmem hnone hlen

theorem releaseSlot_settles {ε : Type} (wf : w.WellFormed) (placed : p.Placed w) :
    (p.releaseSlot : Action ε _).Settles w fun p' w' => p'.MadeFrom p.slots w w' := by
  refine settles_ok (exec_releaseSlot wf placed) ?_
  have t := trade_without [] wf placed
  rw [List.append_nil] at t
  have hslots : { p with handle := .invalid }.slots = [] := slots_of_invalid rfl
  refine ⟨hslots ▸ t, placed_of_invalid rfl fun i hi => ?_⟩
  exact (placed.evolves t.evolves).pool? i hi

theorem copy_settles (wf : w.WellFormed) (placed : p.Placed w) :
    p.copy.Settles w fun p' w' => p'.MadeFrom [] w w' := by
  cases hs : p.slot? with
  | none =>
    exact settles_ok (exec_copy_of_none hs) (madeFrom_invalid rfl fun i hi => placed.pool? i hi)
  | some slot =>
    obtain ⟨i, h⟩ := slot
    obtain ⟨pl, hp, -⟩ := placed.slot hs
    have wfp := wf.pool i pl hp
    refine settles_decided (exec_copy hs hp wfp) fun hnone => ?_
    rw [Option.map_eq_none_iff, Option.or_eq_none_iff, Option.or_eq_none_iff] at hnone
    obtain ⟨hview, hread, hroom⟩ := hnone
    have hlen := Pool.length_block_of_flawed? wfp hread
    have hpool := (slot?_eq_some_iff.mp hs).1
    exact madeFrom_filled wf hp (Option.or_eq_none_iff.mpr ⟨hview, hroom⟩) hlen hpool

/-- The new slot is taken while the old one is still held, and then the old one released. -/
theorem moveTo_settles (wf : w.WellFormed) (placed : p.Placed w) (ht : w.pool? target = some tg) :
    (p.moveTo target).Settles w fun p' w' => p'.MadeFrom p.slots w w' := by
  cases hs : p.slot? with
  | none =>
    refine settles_ok (exec_moveTo_of_none hs ht) ?_
    rw [slots_of_none hs]
    refine madeFrom_invalid (placed.handle_eq hs) fun i hi => ?_
    cases hi
    exact ⟨tg, ht⟩
  | some slot =>
    obtain ⟨i, h⟩ := slot
    obtain ⟨pl, hp, -⟩ := placed.slot hs
    have wfp := wf.pool i pl hp
    have wft := wf.pool target tg ht
    refine settles_decided (exec_moveTo wf hs hp ht) fun hnone => ?_
    rw [Option.or_eq_none_iff, mismatch?_eq_none_iff, Option.or_eq_none_iff, Option.map_eq_none_iff,
      Option.map_eq_none_iff] at hnone
    obtain ⟨hstride, hread, hroom⟩ := hnone
    have hgood := (Option.or_eq_none_iff.mp hread).1
    have hlen : (pl.block h.index.toNat).length = tg.stride := by
      rw [Pool.length_block_of_flawed? wfp hgood, hstride]
    have hsome := (World.flawed?_eq_none_iff hp).mp hgood
    have taken := trade_filled [(i, h)] wf ht hroom hlen
    have hkept : ((w.setPool target (tg.filled (pl.block h.index.toNat))).contents i h).isSome := by
      rw [Option.or_eq_none_iff, Pool.viewed?_eq_none_iff, Pool.full?_eq_none_iff] at hroom
      rw [World.contents_setPool_filled wf ht hroom.1 hroom.2 hlen hsome]
      exact hsome
    have swapped := taken.trans (.perm _ (.swap ..))
    have released := swapped.trans
      (.release hkept (World.update_without (taken.evolves.wellFormed wf) hkept))
    have hlevel : (Event.propertiesMigrated p.id pl.id tg.id).level ≠ .warn := Level.noConfusion
    have noted := released.trans (.note _ _ hlevel)
    rw [World.without_events] at noted
    obtain ⟨tg', ht', hid, -⟩ := noted.evolves.pool target tg ht
    have hslots : { p with pool := some target, handle := tg.nextHandle }.slots =
        [(target, tg.nextHandle)] := slots_of_pool rfl (wft.isValid_of_pool rfl)
    refine ⟨?_, placed_of_handle rfl ht' hid.symm⟩
    rw [slots_of_slot hs, hslots]
    exact noted

theorem copyFrom_settles (wf : w.WellFormed) (placed : p.Placed w) (source_placed : source.Placed w) :
    (p.copyFrom source).Settles w fun p' w' => p'.MadeFrom p.slots w w' := by
  have without := trade_without [] wf placed
  rw [List.append_nil] at without
  cases hs : source.slot? with
  | none =>
    refine settles_ok (exec_copyFrom_of_none wf placed hs) ?_
    have hslots : { source with handle := .invalid }.slots = [] := slots_of_invalid rfl
    refine ⟨hslots ▸ without, placed_of_invalid rfl fun i hi => ?_⟩
    exact (source_placed.evolves without.evolves).pool? i hi
  | some slot =>
    obtain ⟨i, h⟩ := slot
    obtain ⟨pl, hp, -⟩ := source_placed.slot hs
    obtain ⟨hpool, -, -⟩ := slot?_eq_some_iff.mp hs
    have wfp := wf.pool i pl hp
    have hlen : pl.flawed? h = none → (pl.block h.index.toNat).length = pl.stride :=
      fun hread => Pool.length_block_of_flawed? wfp hread
    by_cases hk : ∃ k, p.slot? = some (i, k)
    · obtain ⟨k, hk⟩ := hk
      obtain ⟨hpool', rfl, -⟩ := slot?_eq_some_iff.mp hk
      refine settles_decided (exec_copyFrom_within hs hk hp wfp) fun hnone => ?_
      rw [Option.or_eq_none_iff, Option.map_eq_none_iff, Option.map_eq_none_iff] at hnone
      have hread := (Option.or_eq_none_iff.mp hnone.1).1
      exact madeFrom_written wf placed hk hp hnone.2 (hlen hread) (hpool.trans hpool'.symm) rfl
    · have hk' : ∀ k, p.slot? ≠ some (i, k) := fun k he => hk ⟨k, he⟩
      refine settles_decided (exec_copyFrom_across wf placed hs hk' hp) fun hnone => ?_
      rw [Option.map_eq_none_iff, Option.or_eq_none_iff, Option.or_eq_none_iff] at hnone
      obtain ⟨hview, hread, hroom⟩ := hnone
      have made := madeFrom_filled wf hp (Option.or_eq_none_iff.mpr ⟨hview, hroom⟩) (hlen hread) hpool
      have e := made.trade.evolves
      have taken := (made.trade.append p.slots).trans (.perm _ List.perm_append_comm)
      have released := trade_without { source with handle := pl.nextHandle }.slots
        (e.wellFormed wf) (placed.evolves e)
      exact ⟨taken.trans released, made.placed.evolves released.evolves⟩

/-! ## Records -/

variable {pool : Option Nat} {r : Record dim spacedim} {input : Bytes}

theorem ofRecord_settles (wf : w.WellFormed)
    (hpool : ∀ i, pool = some i → ∃ pl, w.pool? i = some pl) :
    (ofRecord pool r).Settles w fun p' w' => p'.MadeFrom [] w w' := by
  by_cases hv : r.values = []
  · exact settles_ok (exec_ofRecord_of_empty hv) (madeFrom_invalid rfl hpool)
  · cases pool with
    | none => exact settles_refused (exec_ofRecord_of_none hv)
    | some i =>
      obtain ⟨pl, hp⟩ := hpool i rfl
      refine settles_decided (exec_ofRecord_of_pool hv hp (wf.pool i pl hp)) fun hnone => ?_
      rw [Option.or_eq_none_iff, mismatch?_eq_none_iff, Option.map_eq_none_iff] at hnone
      exact madeFrom_filled (p := { bare r.location r.reference r.id with pool := some i }) wf hp
        hnone.2 hnone.1 rfl

theorem ofBytes_settles (dim spacedim : Nat) (input : Bytes) (wf : w.WellFormed)
    (hpool : ∀ i, pool = some i → ∃ pl, w.pool? i = some pl) :
    (ofBytes pool input : Action ParticleError (Particle dim spacedim × Bytes)).Settles w
      fun result w' => result.1.MadeFrom [] w w' := by
  cases hd : (Record.decoder dim spacedim).run input with
  | error cause => exact settles_refused (exec_ofBytes_error hd)
  | ok result =>
    obtain ⟨r, rest⟩ := result
    obtain ⟨cause, p', w', he, hpost⟩ :=
      (ofRecord_settles (r := r) wf hpool).map (fun p => (p, rest))
        (fun result w' => result.1.MadeFrom [] w w') fun _ _ hmade => hmade
    exact ⟨cause, p', w', (exec_ofBytes_ok hd).trans he, hpost⟩

theorem update_settles (input : Bytes) (wf : w.WellFormed) (placed : p.Placed w) :
    (p.update input).Settles w fun result w' => result.1.MadeFrom p.slots w w' := by
  cases hd : (Record.decoder dim spacedim).run input with
  | error cause => exact settles_refused (exec_update_error hd)
  | ok result =>
    obtain ⟨r, rest⟩ := result
    cases hs : p.slot? with
    | none =>
      exact settles_decided (exec_update_of_none hd hs) fun _ => madeFrom_self placed rfl rfl
    | some slot =>
      obtain ⟨i, h⟩ := slot
      obtain ⟨pl, hp, -⟩ := placed.slot hs
      refine settles_decided (exec_update_of_slot hd hs hp (wf.pool i pl hp)) fun hnone => ?_
      rw [Option.or_eq_none_iff, mismatch?_eq_none_iff, Option.map_eq_none_iff] at hnone
      exact madeFrom_written wf placed hs hp hnone.2 hnone.1 rfl rfl

theorem absorb_settles (wf : w.WellFormed) (placed : p.Placed w) :
    (p.absorb r).Settles w fun p' w' => p'.MadeFrom p.slots w w' := by
  by_cases hv : r.values = []
  · exact settles_ok (exec_absorb_of_empty hv) (madeFrom_self placed rfl rfl)
  · cases hpool : p.pool with
    | none => exact settles_refused (exec_absorb_of_none hv hpool)
    | some i =>
      obtain ⟨pl, hp, -⟩ := placed.pool i hpool
      have wfp := wf.pool i pl hp
      by_cases hvalid : p.handle.isValid = true
      · have hs : p.slot? = some (i, p.handle) := slot?_eq_some_iff.mpr ⟨hpool, rfl, hvalid⟩
        refine settles_decided (exec_absorb_of_slot hv hs hp wfp) fun hnone => ?_
        rw [Option.or_eq_none_iff, mismatch?_eq_none_iff, Option.map_eq_none_iff] at hnone
        exact madeFrom_written wf placed hs hp hnone.2 hnone.1 rfl rfl
      · have hinvalid : p.handle = .invalid := by simpa [Handle.isValid] using hvalid
        refine settles_decided
          (exec_absorb_of_pool hv hpool (Bool.eq_false_iff.mpr hvalid) hp wfp) fun hnone => ?_
        rw [Option.or_eq_none_iff, mismatch?_eq_none_iff, Option.map_eq_none_iff] at hnone
        rw [slots_of_invalid hinvalid]
        exact madeFrom_filled (p := p.relabelled r) wf hp hnone.2 hnone.1 hpool

/-! ## Streams -/

variable {chunk : Option Nat} {source_bytes : Bytes}

/-- What a stream still has is the back part of what it had. -/
theorem receive_suffix (chunk : Option Nat) (n : Nat) (source : Bytes) :
    (Stream.receive chunk n source).2 <:+ source := by
  unfold Stream.receive
  split
  · exact List.suffix_refl _
  · split
    · exact List.suffix_refl _
    · split
      · exact List.drop_suffix _ _
      · exact List.nil_suffix

theorem receiveRecord_suffix (dim spacedim : Nat) (chunk : Option Nat)
    (allowed : Nat → Attempt ParticleError Unit) (source : Bytes) :
    (receiveRecord dim spacedim chunk allowed source).2 <:+ source := by
  have hhead := receive_suffix chunk (Header.byteWidth dim spacedim) source
  unfold receiveRecord
  cases hreceive : Stream.receive chunk (Header.byteWidth dim spacedim) source with
  | mk head left =>
    rw [hreceive] at hhead
    cases head with
    | error cause => exact hhead
    | ok head =>
      simp only
      split
      · exact hhead
      · have hbody := receive_suffix chunk (declaredCount dim spacedim head * Scalar.byteWidth) left
        split <;> rename_i hsecond <;> rw [hsecond] at hbody <;> exact hbody.trans hhead

/-- A record is not received for a cause that is part of the contract. -/
theorem receiveRecord_error {allowed : Nat → Attempt ParticleError Unit} {source left : Bytes}
    {failure : Failure ParticleError}
    (hallowed : ∀ n failure, allowed n = .error failure → ∃ cause, failure = .refused cause)
    (he : receiveRecord dim spacedim chunk allowed source = (.error failure, left)) :
    ∃ cause, failure = .refused cause := by
  unfold receiveRecord at he
  split at he
  · cases he
    exact ⟨_, rfl⟩
  · simp only at he
    split at he
    · rename_i hrefused
      cases he
      exact hallowed _ _ hrefused
    · split at he
      · cases he
        exact ⟨_, rfl⟩
      · cases he

theorem accepts_error (placed : p.Placed w) {n : Nat} {failure : Failure ParticleError}
    (he : p.accepts w n = .error failure) : ∃ cause, failure = .refused cause := by
  unfold accepts at he
  split at he
  · cases he
  · cases hpool : p.pool with
    | none =>
      rw [hpool] at he
      cases he
      exact ⟨_, rfl⟩
    | some i =>
      obtain ⟨pl, hp, -⟩ := placed.pool i hpool
      rw [hpool, World.poolFor_eq hp] at he
      cases hsame : mismatch? n pl.stride with
      | none =>
        rw [hsame] at he
        cases he
      | some cause =>
        rw [hsame] at he
        cases he
        exact ⟨_, rfl⟩

/-- A record is received, decoded and absorbed. -/
theorem run_load (chunk : Option Nat) (source : Bytes) :
    (p.load chunk source).run w =
      match receiveRecord dim spacedim chunk (p.accepts w) source with
      | (.error failure, left) => ((.error failure, left), w)
      | (.ok bytes, left) =>
        match (Record.decoder dim spacedim).run bytes with
        | .error cause => ((Attempt.refuse (.malformed cause), left), w)
        | .ok (r, _) => ((((p.absorb r).exec w).1, left), ((p.absorb r).exec w).2) := by
  unfold load
  rw [StateT.run_bind, StateT.run_get]
  simp only [pure_bind]
  cases receiveRecord dim spacedim chunk (p.accepts w) source with
  | mk received left =>
    cases received with
    | error failure => rfl
    | ok bytes =>
      simp only [Attempt.ofDecoder]
      cases (Record.decoder dim spacedim).run bytes <;> rfl

/-- Loading fails without a trace but in the stream, or trades the slot. -/
theorem load_settles (wf : w.WellFormed) (placed : p.Placed w) (chunk : Option Nat) (source : Bytes) :
    ∃ result left w', (p.load chunk source).run w = ((result, left), w') ∧ left <:+ source ∧
      match result with
      | .ok p' => p'.MadeFrom p.slots w w'
      | .error failure => w' = w ∧ ∃ cause, failure = .refused cause := by
  have hsuffix := receiveRecord_suffix dim spacedim chunk (p.accepts w) source
  rw [run_load]
  cases hreceive : receiveRecord dim spacedim chunk (p.accepts w) source with
  | mk received left =>
    rw [hreceive] at hsuffix
    cases received with
    | error failure =>
      exact ⟨_, left, w, rfl, hsuffix, rfl,
        receiveRecord_error (fun _ _ => accepts_error placed) hreceive⟩
    | ok bytes =>
      simp only
      cases (Record.decoder dim spacedim).run bytes with
      | error cause => exact ⟨_, left, w, rfl, hsuffix, rfl, _, rfl⟩
      | ok result =>
        obtain ⟨cause, p', w', he, hpost⟩ := absorb_settles (r := result.1) wf placed
        refine ⟨_, left, _, rfl, hsuffix, ?_⟩
        simp only [he]
        cases cause with
        | some cause => exact ⟨rfl, cause, rfl⟩
        | none => exact hpost rfl

end Particle

end ParticleStore
