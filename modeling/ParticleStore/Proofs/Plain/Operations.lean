/-
ParticleStore.Proofs.Plain.Operations — operations on particles as operations on plain ones.

An operation on a particle `Mirrors` an operation on its plain particle if both are refused
for the same cause, or both succeed and the plain result is the plain one of the
particle and the world afterwards. Every operation does, for particles that own their
slots. Which slot is used, and whether it was used before, makes no difference.
-/
import ParticleStore.Proofs.Plain.Abstraction

namespace ParticleStore

open ParticleStore.Action World

/-- The action is refused for the cause that the plain result is refused for, or it succeeds
and `f` makes the plain result of its result and the world afterwards. -/
def Action.Mirrors {ε α β : Type} (action : Action ε α) (w : World) (f : α → World → β)
    (result : Attempt ε β) : Prop :=
  ∃ cause a w', action.exec w = decided cause w a w' ∧ result = .decided cause (f a w')

namespace Action

variable {ε α β : Type} {action : Action ε α} {w w' : World} {f : α → World → β} {a : α} {b : β}
  {result : Attempt ε β}

theorem mirrors_decided {cause cause' : Option ε} (he : action.exec w = decided cause w a w')
    (hcause : cause' = cause) (hb : cause = none → f a w' = b) :
    action.Mirrors w f (.decided cause' b) := by
  subst hcause
  exact ⟨cause', a, w', he, Attempt.decided_congr fun hnone => (hb hnone).symm⟩

theorem mirrors_ok (he : action.exec w = (.ok a, w')) (hb : f a w' = b) :
    action.Mirrors w f (.ok b) :=
  ⟨none, a, w', he, by rw [hb]; rfl⟩

theorem mirrors_refused [Inhabited α] {e : ε} (he : action.exec w = (Attempt.refuse e, w)) :
    action.Mirrors w f (Attempt.refuse e) :=
  ⟨some e, default, w, he, rfl⟩

end Action

namespace Particle

variable {dim spacedim : Nat} {w : World} {views : List OpenView} {i target : Nat} {pl tg : Pool}
  {h : Handle} {new : List Scalar} {p source : Particle dim spacedim} {r : Record dim spacedim}

/-- The plain particle, with the plain pools. -/
def image (views : List OpenView) (p : Particle dim spacedim) (w : World) :
    PlainParticle dim spacedim × PlainPools :=
  (p.plain views w, w.plain)

section Operations

variable (vw : w.Viewed views) (wf : w.WellFormed)

include vw wf

/-- Values go to the slot that a particle owns. -/
theorem mirrors_written {x : Action ParticleError (Particle dim spacedim)} (owning : p.Owning w)
    (hs : p.slot? = some (i, h)) (hp : w.pool? i = some pl)
    (hx : x.exec w = decided
      ((mismatch? new.length pl.stride).or (((pl.flawed? h).or pl.viewed?).map .pool)) w p
      (w.setPool i (pl.withBlock h.index.toNat new))) :
    x.Mirrors w (image views) ((p.plain views w).give w.plain i new) := by
  obtain ⟨pl', hp', -, hgood, -, -, hown, -⟩ := owning.held views wf hs
  rw [hp] at hp'
  cases hp'
  rw [PlainParticle.give, hown]
  refine mirrors_decided hx ?_ fun hnone => ?_
  · rw [stride_plain hp, check_plain hp, Pool.plain_viewed?, hgood, Option.none_or]
  · rw [Option.or_eq_none_iff, mismatch?_eq_none_iff, Option.map_eq_none_iff] at hnone
    rw [image, plain_written vw wf hs hp hnone.2 hnone.1, plain_setPool_self hp Pool.plain_withBlock]
    rfl

/-- Values go to a slot that is taken for them. -/
theorem mirrors_filled {x : Action ParticleError (Particle dim spacedim)} (hs : p.slot? = none)
    (hpool : p.pool = some i) (hp : w.pool? i = some pl)
    (hx : x.exec w = decided
      ((mismatch? new.length pl.stride).or ((pl.viewed?.or pl.full?).map .pool)) w
      { p with handle := pl.nextHandle } (w.setPool i (pl.filled new))) :
    x.Mirrors w (image views) ((p.plain views w).give w.plain i new) := by
  have hown : (p.plain views w).own = none := by rw [plain_of_none hs]
  rw [PlainParticle.give, hown]
  refine mirrors_decided hx ?_ fun hnone => ?_
  · rw [stride_plain hp, check_plain hp, Pool.plain_noRoom?]
  · rw [Option.or_eq_none_iff, mismatch?_eq_none_iff, Option.map_eq_none_iff] at hnone
    rw [image, plain_filled vw wf hp hnone.2 hnone.1 hpool,
      World.plain_filled hp]
    rfl

/-! ## Values -/

theorem setValues_mirrors (owning : p.Owning w) :
    (p.setValues new).Mirrors w (image views) ((p.plain views w).setValues w.plain new) := by
  unfold PlainParticle.setValues
  have hsame : (p.plain views w).pool = p.pool := rfl
  rw [hsame]
  cases hpool : p.pool with
  | none => exact mirrors_refused (exec_setValues_of_none hpool)
  | some i =>
    obtain ⟨pl, hp, -⟩ := owning.pool i hpool
    have wfp := wf.pool i pl hp
    cases hs : p.slot? with
    | none =>
      have hvalid : p.handle.isValid = false := by simp [owning.handle_eq hs, Handle.isValid]
      exact mirrors_filled vw wf hs hpool hp (exec_setValues_of_pool hpool hvalid hp wfp)
    | some slot =>
      obtain ⟨j, h⟩ := slot
      obtain rfl : i = j := by simpa [hpool] using (slot?_eq_some_iff.mp hs).1
      exact mirrors_written vw wf owning hs hp (exec_setValues_of_slot hs hp wfp)

theorem overwrite_mirrors (new : List Scalar) (owning : p.Owning w) :
    (p.overwrite new).Mirrors w (fun values w' => (values, image views p w'))
      ((p.plain views w).overwrite w.plain new) := by
  unfold PlainParticle.overwrite
  cases hs : p.slot? with
  | none =>
    rw [held?_of_none hs]
    refine mirrors_refused ?_
    unfold overwrite
    rw [hs]
    rfl
  | some slot =>
    obtain ⟨i, h⟩ := slot
    obtain ⟨pl, hp, wfp, hgood, hlen, -, -, hheld⟩ := owning.held views wf hs
    rw [hheld]
    refine mirrors_decided (exec_overwrite hs hp wfp) ?_ fun hnone => ?_
    · rw [check_plain hp, Pool.plain_viewed?, hgood, Option.none_or]
    · rw [Option.map_eq_none_iff] at hnone
      have hlen' : (overlay new (pl.block h.index.toNat)).length = pl.stride := by
        rw [length_overlay, hlen]
      rw [image, plain_written vw wf hs hp hnone hlen', plain_setPool_self hp Pool.plain_withBlock]
      rfl

omit vw in
theorem releaseSlot_mirrors {ε : Type} (owning : p.Owning w) :
    (p.releaseSlot : Action ε _).Mirrors w (image views)
      (.ok ((p.plain views w).stripped, (p.plain views w).release w.plain)) := by
  refine mirrors_ok (exec_releaseSlot wf owning.toPlaced) ?_
  rw [image, plain_of_invalid rfl, plain_worldWithout views owning wf]
  rfl

/-! ## Moving and copying -/

theorem moveTo_mirrors (owning : p.Owning w) (ht : w.pool? target = some tg) :
    (p.moveTo target).Mirrors w (image views) ((p.plain views w).moveTo w.plain target) := by
  unfold PlainParticle.moveTo
  cases hs : p.slot? with
  | none =>
    have hhandle := owning.handle_eq hs
    rw [held?_of_none hs]
    refine mirrors_ok (exec_moveTo_of_none hs ht) ?_
    rw [image, plain_of_invalid (p := { p with pool := some target }) hhandle, plain_of_none hs]
  | some slot =>
    obtain ⟨i, h⟩ := slot
    obtain ⟨pl, hp, wfp, hgood, hlen, -, -, hheld⟩ := owning.held views wf hs
    have wft := wf.pool target tg ht
    rw [hheld]
    refine mirrors_decided (exec_moveTo wf hs hp ht) ?_ fun hnone => ?_
    · rw [stride_plain hp, stride_plain ht, check_plain hp, check_plain ht, Pool.plain_written?,
        Pool.plain_noRoom?, hgood, Option.none_or]
    · rw [Option.or_eq_none_iff, mismatch?_eq_none_iff, Option.or_eq_none_iff,
        Option.map_eq_none_iff, Option.map_eq_none_iff] at hnone
      obtain ⟨hstride, -, hroom⟩ := hnone
      have hlen' : (pl.block h.index.toNat).length = tg.stride := by rw [hlen, hstride]
      have hroom' := hroom
      rw [Option.or_eq_none_iff, Pool.viewed?_eq_none_iff, Pool.full?_eq_none_iff] at hroom'
      have u := update_setPool ht (Pool.update_filled wft hroom'.1 hroom'.2 hlen')
      have hsome : (w.contents i h).isSome :=
        owning.live (i, h) (by rw [slots_of_slot hs]; exact List.mem_singleton_self _)
      have hkept := contents_setPool_filled wf ht hroom'.1 hroom'.2 hlen' hsome
      have u' := update_without (u.wellFormed wf) (hkept ▸ hsome)
      -- the new slot is not the one that is released
      have hne : ¬ (target = i ∧ tg.nextHandle = h) := by
        rintro ⟨rfl, rfl⟩
        rw [contents_of_pool ht, Pool.contents_nextHandle wft] at hsome
        cases hsome
      have hshown := (u'.contents_of_ne hne).trans u.contents_self
      obtain ⟨pl', hp', -⟩ := u.evolves.pool i pl hp
      rw [image]
      refine Prod.ext ?_ ?_
      · exact plain_of_contents (slot?_eq_some_iff.mpr ⟨rfl, rfl, wft.isValid_of_pool rfl⟩) hshown
          (vw.lent_eq_false ht hroom'.1)
      · exact (World.plain_without hp').trans (by rw [World.plain_filled ht])

theorem copy_mirrors (owning : p.Owning w) :
    p.copy.Mirrors w (image views) ((p.plain views w).copy w.plain) := by
  unfold PlainParticle.copy
  cases hs : p.slot? with
  | none =>
    rw [held?_of_none hs]
    refine mirrors_ok (exec_copy_of_none hs) ?_
    rw [image, plain_of_invalid rfl, plain_of_none hs]
  | some slot =>
    obtain ⟨i, h⟩ := slot
    obtain ⟨pl, hp, wfp, hgood, hlen, hpool, -, hheld⟩ := owning.held views wf hs
    rw [hheld]
    refine mirrors_decided (exec_copy hs hp wfp) ?_ fun hnone => ?_
    · rw [check_plain hp, Pool.plain_noRoom?, hgood, Option.none_or]
    · rw [Option.map_eq_none_iff, hgood, Option.none_or] at hnone
      rw [image, plain_filled vw wf hp hnone hlen hpool, World.plain_filled hp]
      rfl

omit vw in
/-- A particle has values in a pool if it holds one of the pool's slots. -/
theorem hasValuesIn_iff (owning : p.Owning w) :
    ((p.plain views w).pool = some i ∧ (p.plain views w).own.isSome = true) ↔
      ∃ k, p.slot? = some (i, k) := by
  constructor
  · rintro ⟨hpool, hown⟩
    cases hs : p.slot? with
    | none =>
      rw [plain_of_none hs] at hown
      cases hown
    | some slot =>
      obtain ⟨j, k⟩ := slot
      have hj : some j = some i := (slot?_eq_some_iff.mp hs).1.symm.trans hpool
      exact ⟨k, by rw [Option.some.inj hj]⟩
  · rintro ⟨k, hk⟩
    obtain ⟨_, -, -, -, -, hpool, hown, -⟩ := owning.held views wf hk
    exact ⟨hpool, by rw [hown]; rfl⟩

/-- A slot is taken for the copy, and then the particle that is overwritten loses its own. -/
theorem image_replaced (owning : p.Owning w) (hpool : source.pool = some i)
    (hp : w.pool? i = some pl) (hnone : pl.viewed?.or pl.full? = none)
    (hlen : new.length = pl.stride) (hk : ∀ k, p.slot? ≠ some (i, k)) :
    image views { source with handle := pl.nextHandle }
        (p.worldWithout (w.setPool i (pl.filled new))) =
      ((source.plain views w).owning new, (p.plain views w).release (w.plain.taken i)) := by
  have wfp := wf.pool i pl hp
  have hroom := hnone
  rw [Option.or_eq_none_iff, Pool.viewed?_eq_none_iff, Pool.full?_eq_none_iff] at hroom
  have u := update_setPool hp (Pool.update_filled wfp hroom.1 hroom.2 hlen)
  have wf' := u.wellFormed wf
  -- the particle's slot stays its own while another one is taken
  have hkept : ∀ slot ∈ p.slots,
      (w.setPool i (pl.filled new)).contents slot.1 slot.2 = w.contents slot.1 slot.2 :=
    fun slot hslot =>
      contents_setPool_filled wf hp hroom.1 hroom.2 hlen (owning.live slot hslot)
  have owning' : p.Owning (w.setPool i (pl.filled new)) :=
    ⟨owning.toPlaced.evolves u.evolves, fun slot hslot => by
      rw [hkept slot hslot]
      exact owning.live slot hslot⟩
  have hout : (i, pl.nextHandle) ∉ p.slots := by
    intro hmem
    refine hk pl.nextHandle ?_
    simpa [slots] using hmem
  have hs' : { source with handle := pl.nextHandle }.slot? = some (i, pl.nextHandle) :=
    slot?_eq_some_iff.mpr ⟨hpool, rfl, wfp.isValid_of_pool rfl⟩
  have hshown := (contents_worldWithout wf' owning'.toPlaced hout).trans u.contents_self
  rw [image, plain_of_contents hs' hshown (vw.lent_eq_false hp hroom.1),
    plain_worldWithout views owning' wf', plain_congr hkept, World.plain_filled hp]
  rfl

theorem copyFrom_mirrors (owning : p.Owning w) (source_owning : source.Owning w) :
    (p.copyFrom source).Mirrors w (image views)
      ((p.plain views w).copyFrom w.plain (source.plain views w)) := by
  unfold PlainParticle.copyFrom
  cases hs : source.slot? with
  | none =>
    rw [held?_of_none hs]
    refine mirrors_ok (exec_copyFrom_of_none wf owning.toPlaced hs) ?_
    rw [image, plain_of_invalid rfl, plain_of_none hs, plain_worldWithout views owning wf]
  | some slot =>
    obtain ⟨i, h⟩ := slot
    obtain ⟨pl, hp, wfp, hgood, hlen, hpool, -, hheld⟩ := source_owning.held views wf hs
    rw [hheld]
    simp only
    by_cases hwithin : ∃ k, p.slot? = some (i, k)
    · rw [if_pos ((hasValuesIn_iff wf owning).mpr hwithin)]
      obtain ⟨k, hk⟩ := hwithin
      obtain ⟨pl', hp', -, hgood', -⟩ := owning.held views wf hk
      rw [hp] at hp'
      cases hp'
      refine mirrors_decided (exec_copyFrom_within hs hk hp wfp) ?_ fun hnone => ?_
      · rw [check_plain hp, check_plain hp, Pool.plain_written?, Pool.plain_viewed?, hgood, hgood',
          Option.none_or, Option.none_or]
      · rw [Option.or_eq_none_iff, Option.map_eq_none_iff, Option.map_eq_none_iff] at hnone
        have hs' : { source with handle := k }.slot? = some (i, k) :=
          slot?_eq_some_iff.mpr ⟨hpool, rfl, (slot?_eq_some_iff.mp hk).2.2⟩
        rw [image, plain_written vw wf hs' hp hnone.2 hlen,
          plain_setPool_self hp Pool.plain_withBlock]
        rfl
    · rw [if_neg fun hin => hwithin ((hasValuesIn_iff wf owning).mp hin)]
      have hk : ∀ k, p.slot? ≠ some (i, k) := fun k he => hwithin ⟨k, he⟩
      refine mirrors_decided (exec_copyFrom_across wf owning.toPlaced hs hk hp) ?_ fun hnone => ?_
      · rw [check_plain hp, Pool.plain_noRoom?, hgood, Option.none_or]
      · rw [Option.map_eq_none_iff, hgood, Option.none_or] at hnone
        exact image_replaced vw wf owning hpool hp hnone hlen hk

/-! ## Records -/

theorem ofRecord_mirrors {pool : Option Nat} (hpool : ∀ i, pool = some i → (w.pool? i).isSome) :
    (ofRecord pool r).Mirrors w (image views) (PlainParticle.ofRecord w.plain pool r) := by
  unfold PlainParticle.ofRecord
  by_cases hv : r.values = []
  · rw [if_pos hv]
    refine mirrors_ok (exec_ofRecord_of_empty hv) ?_
    rw [image, plain_of_invalid rfl]
    rfl
  · rw [if_neg hv]
    cases pool with
    | none => exact mirrors_refused (exec_ofRecord_of_none hv)
    | some i =>
      obtain ⟨pl, hp⟩ := Option.isSome_iff_exists.mp (hpool i rfl)
      have he := exec_ofRecord_of_pool hv hp (wf.pool i pl hp)
      have hs : ({ bare r.location r.reference r.id with pool := some i } :
          Particle dim spacedim).slot? = none := rfl
      have hm := mirrors_filled vw wf hs rfl hp he
      rw [plain_of_none hs] at hm
      exact hm

theorem update_mirrors {input rest : Bytes} (owning : p.Owning w)
    (hd : (Record.decoder dim spacedim).run input = .ok (r, rest)) :
    ∃ cause p' w', (p.update input).exec w = decided cause w (p', rest) w' ∧
      (p.plain views w).update w.plain r = .decided cause (image views p' w') := by
  unfold PlainParticle.update
  cases hs : p.slot? with
  | none =>
    rw [held?_of_none hs]
    exact ⟨_, p.relabelled r, w, exec_update_of_none hd hs, rfl⟩
  | some slot =>
    obtain ⟨i, h⟩ := slot
    obtain ⟨pl, hp, wfp, hgood, -, -, -, hheld⟩ := owning.held views wf hs
    rw [hheld]
    refine ⟨_, p.relabelled r, _, exec_update_of_slot hd hs hp wfp, ?_⟩
    simp only [stride_plain hp, check_plain hp, Pool.plain_viewed?, hgood, Option.none_or]
    refine Attempt.decided_congr fun hnone => ?_
    rw [Option.or_eq_none_iff, mismatch?_eq_none_iff, Option.map_eq_none_iff] at hnone
    have hs' : (p.relabelled r).slot? = some (i, h) := hs
    have hfree : (pl.flawed? h).or pl.viewed? = none := by rw [hgood, Option.none_or, hnone.2]
    rw [image, plain_written vw wf hs' hp hfree hnone.1, plain_setPool_self hp Pool.plain_withBlock]
    rfl

theorem absorb_mirrors (owning : p.Owning w) :
    (p.absorb r).Mirrors w (image views) ((p.plain views w).absorb w.plain r) := by
  unfold PlainParticle.absorb
  by_cases hv : r.values = []
  · rw [if_pos hv]
    exact mirrors_ok (exec_absorb_of_empty hv) rfl
  · rw [if_neg hv]
    have hsame : (p.plain views w).pool = p.pool := rfl
    rw [hsame]
    have owning' : (p.relabelled r).Owning w := ⟨owning.toPlaced.congr rfl rfl, owning.live⟩
    cases hpool : p.pool with
    | none => exact mirrors_refused (exec_absorb_of_none hv hpool)
    | some i =>
      obtain ⟨pl, hp, -⟩ := owning.pool i hpool
      have wfp := wf.pool i pl hp
      cases hs : p.slot? with
      | none =>
        have hvalid : p.handle.isValid = false := by simp [owning.handle_eq hs, Handle.isValid]
        exact mirrors_filled (p := p.relabelled r) vw wf hs hpool hp
          (exec_absorb_of_pool hv hpool hvalid hp wfp)
      | some slot =>
        obtain ⟨j, h⟩ := slot
        obtain rfl : i = j := by simpa [hpool] using (slot?_eq_some_iff.mp hs).1
        exact mirrors_written (p := p.relabelled r) vw wf owning' hs hp
          (exec_absorb_of_slot hv hs hp wfp)

end Operations

end Particle

end ParticleStore
