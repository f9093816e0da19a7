/-
ParticleStore.Proofs.Plain.Views — views of particles as views of plain ones.

A view is a window on a slot, and a plain view a list of values. What ties the two
together is that one particle at most owns the slot, and that no slot is taken while
a view is open: what is written through a view shows in the particle that owns
the slot, if there is one, and in no other (`plain_written_through`).
-/
import ParticleStore.Proofs.Plain.Steps

namespace ParticleStore

open ParticleStore.Action Particle World StepM

namespace Pool

variable {p : Pool} {h : Handle}

theorem flawed?_invalid : p.flawed? .invalid = some (.invalidHandle .sentinel) := by
  simp [flawed?, locate, Handle.isValid]

theorem flawed?_foreign (hvalid : h.isValid = true) (hne : h.pool ≠ p.id) :
    p.flawed? h = some (.invalidHandle .foreignPool) := by
  simp [flawed?, locate, hvalid, hne]

/-- Opening a view changes nothing that handles or views show. -/
theorem contents_viewOpened (writable : Bool) : (p.viewOpened writable).contents = p.contents := by
  cases writable <;> rfl

theorem block_viewOpened (writable : Bool) : (p.viewOpened writable).block = p.block := by
  cases writable <;> rfl

end Pool

variable {dim spacedim : Nat} {s : Session dim spacedim} {key dest i : Nat} {pl : Pool} {h : Handle}
  {p : Particle dim spacedim} {writable : Bool}

namespace Session

/-! ## Opening -/

/-- A view is refused for the causes that can be read off the plain session. -/
theorem viewRefused?_plain (sound : s.Sound True) (hp : s.particles.find? key = some p)
    (hi : s.world.pool? i = some pl) :
    s.plain.viewRefused? i (p.plain s.views.values s.world) writable =
      (pl.flawed? p.handle).or (if writable then pl.viewed? else pl.written?) := by
  have owning := sound.owning hp
  unfold PlainSession.viewRefused?
  cases hs : p.slot? with
  | none =>
    rw [held?_of_none hs, owning.handle_eq hs, Pool.flawed?_invalid]
    rfl
  | some slot =>
    obtain ⟨j, h⟩ := slot
    obtain ⟨plj, hj, -, hgood, -, -, -, hheld⟩ := owning.held s.views.values
      sound.wellFormed hs
    obtain ⟨-, rfl, hvalid⟩ := slot?_eq_some_iff.mp hs
    rw [hheld]
    by_cases hji : j = i
    · subst hji
      rw [hi] at hj
      cases hj
      simp only [ne_eq, not_true_eq_false, if_false, hgood, Option.none_or]
      show (s.world.plain[j]?).bind _ = _
      rw [getElem?_plain, hi]
      cases writable
      · exact Pool.plain_written?
      · exact Pool.plain_viewed?
    · obtain ⟨plj', hj', hid⟩ := owning.slot hs
      rw [hj] at hj'
      cases hj'
      have hforeign : p.handle.pool ≠ pl.id := fun he =>
        hji (sound.wellFormed.id_inj j i plj pl hj hi (hid.symm.trans he))
      simp only [ne_eq, hji, not_false_eq_true, if_true, Pool.flawed?_foreign hvalid hforeign]
      rfl

/-- A view of a particle is open, and lent is at most that particle's slot. -/
theorem plain_opened (sound : s.Sound True) (viewing : s.Viewing)
    (hp : s.particles.find? key = some p) (hs : p.slot? = some (i, h))
    (hi : s.world.pool? i = some pl)
    (hfree : (if writable then pl.viewed? else pl.written?) = none) :
    ({ s with world := s.world.setPool i (pl.viewOpened writable) } : Session dim spacedim).plainWith
        ((i, ⟨h.index.toNat, writable⟩) :: s.views.values) =
      { s.plain.put key { p.plain s.views.values s.world with
            own := (p.plain s.views.values s.world).own.map fun own => { own with lent := writable } }
          with pools := s.plain.pools.modify i (PlainPool.opened writable) } := by
  obtain ⟨hcounted, -⟩ := plain_counted (s := s)
    ((i, ⟨h.index.toNat, writable⟩) :: s.views.values) hi
    (Pool.contents_viewOpened writable) (Pool.block_viewOpened writable)
  refine hcounted.trans ?_
  refine PlainSession.ext (plain_setPool hi (Pool.plain_viewOpened writable)) rfl
    (funext fun k => ?_) rfl rfl
  show (s.particles.find? k).map _ =
    Function.update (Option.map (Particle.plain s.views.values s.world) ∘ s.particles.find?) key _ k
  have hcons : ∀ slot : HeldSlot, lent ((i, ⟨h.index.toNat, writable⟩) :: s.views.values) slot =
      (writable && (i == slot.1 && h.index.toNat == slot.2.index.toNat) ||
        lent s.views.values slot) := fun slot => by
    rw [lent, List.any_cons, lent]
  by_cases hk : k = key
  · subst hk
    have hlent : lent ((i, ⟨h.index.toNat, writable⟩) :: s.views.values) (i, h) = writable := by
      rw [hcons]
      cases writable with
      | true => simp
      | false =>
        have hwriters : pl.writers = 0 := by simpa [Pool.written?_eq_none_iff] using hfree
        simp [viewing.viewed.lent_eq_false_of_writers hi hwriters]
    rw [Function.update_self, hp]
    unfold Particle.plain
    simp only [Option.map_some, hs, Option.bind_some, hlent, Option.map_map]
    rfl
  · rw [Function.update_of_ne hk]
    refine Option.map_congr fun q hq => ?_
    unfold Particle.plain
    cases hs' : q.slot? with
    | none => rfl
    | some slot =>
      obtain ⟨j, h'⟩ := slot
      -- no other particle has the slot
      have hother : (i == j && h.index.toNat == h'.index.toNat) = false := by
        rw [Bool.eq_false_iff, ne_eq, Bool.and_eq_true, beq_iff_eq, beq_iff_eq]
        rintro ⟨rfl, hindex⟩
        exact hk (sound.slotsOwned.slot_inj key k p q i h h' hp hq hs hs'
          (UInt32.toNat_inj.mp hindex)).symm
      simp only [Option.bind_some, hcons, hother, Bool.and_false, Bool.false_or]

/-- The view that was opened is kept under a key that is free. -/
theorem plain_kept {ov : OpenView} (hasc : s.views.Ascending) (hfree : s.views.find? dest = none)
    (vw : s.world.Viewed (ov :: s.views.values)) :
    ({ s with views := s.views.insert dest ov } : Session dim spacedim).plain =
        { s.plainWith (ov :: s.views.values) with
          views := Function.update (s.plainWith (ov :: s.views.values)).views dest
            (some (plainView s.world ov)) } ∧
      ({ s with views := s.views.insert dest ov } : Session dim spacedim).Viewing := by
  have hvalues := Registry.values_insert hasc dest ov
  rw [Registry.erase_of_find?_none hfree] at hvalues
  refine ⟨PlainSession.ext rfl rfl (funext fun k => ?_) ?_ rfl,
    Registry.ascending_insert hasc dest ov, vw.perm hvalues.symm⟩
  · refine Option.map_congr fun q _ => ?_
    unfold Particle.plain
    simp only [lent_perm hvalues]
  · show Option.map _ ∘ (s.views.insert dest ov).find? = _
    rw [Registry.find?_insert, Function.comp_update]
    rfl

/-- A handle that is good in a pool is a slot of that pool. -/
theorem slot?_of_flawed? (sound : s.Sound True) (hp : s.particles.find? key = some p)
    (hi : s.world.pool? i = some pl) (hgood : pl.flawed? p.handle = none) :
    p.slot? = some (i, p.handle) := by
  have owning := sound.owning hp
  have wfp := sound.wellFormed.pool i pl hi
  cases hs : p.slot? with
  | none =>
    rw [owning.handle_eq hs, Pool.flawed?_invalid] at hgood
    cases hgood
  | some slot =>
    obtain ⟨j, h⟩ := slot
    obtain ⟨-, rfl, -⟩ := slot?_eq_some_iff.mp hs
    obtain ⟨plj, hj, hid⟩ := owning.slot hs
    rw [Pool.flawed?_eq_none_iff_contents, Pool.isSome_contents wfp] at hgood
    rw [sound.wellFormed.id_inj j i plj pl hj hi (hid.symm.trans hgood.1)]

/-- A view of a particle is opened and kept under a key, and the one that was there closed. -/
theorem plain_openedAs (dest : Nat) (sound : s.Sound True) (viewing : s.Viewing)
    (hp : s.particles.find? key = some p) (hs : p.slot? = some (i, h))
    (hi : s.world.pool? i = some pl)
    (hfree : (if writable then pl.viewed? else pl.written?) = none) :
    ∃ result s', (shutView dest).exec
        { s with world := s.world.setPool i (pl.viewOpened writable) } = (.ok result, s') ∧
      ({ s' with views := s'.views.insert dest (i, ⟨h.index.toNat, writable⟩) } :
          Session dim spacedim).plain =
        (let q := p.plain s.views.values s.world
          let q' := { q with own := q.own.map fun own => { own with lent := writable } }
          let opened :=
            { s.plain.put key q' with pools := s.plain.pools.modify i (PlainPool.opened writable) }
          let m := opened.shutView dest
          { m with
            views := Function.update m.views dest
              (some ⟨i, writable, (q.own.map OwnValues.values).getD []⟩) }) ∧
      ({ s' with views := s'.views.insert dest (i, ⟨h.index.toNat, writable⟩) } :
          Session dim spacedim).Viewing := by
  obtain ⟨pl', hi', wfp, hgood, -, -, hown, -⟩ := (sound.owning hp).held s.views.values
    sound.wellFormed hs
  rw [hi] at hi'
  cases hi'
  have hlt := (Pool.liveAt_of_flawed? wfp hgood).lt
  obtain ⟨s', hexec, hplain, hviews, vw, hseen⟩ := plain_shut dest
    (s := { s with world := s.world.setPool i (pl.viewOpened writable) })
    [(i, ⟨h.index.toNat, writable⟩)] viewing.ascending (viewing.viewed.opened hi hlt hfree)
  have hgone : s'.views.find? dest = none := by
    rw [hviews]
    exact Registry.find?_erase_self _ _
  have hasc : s'.views.Ascending := hviews ▸ Registry.ascending_erase viewing.ascending dest
  obtain ⟨hkept, hviewing⟩ := plain_kept hasc hgone vw
  have hshown : s'.world.seen (i, ⟨h.index.toNat, writable⟩) = pl.block h.index.toNat := by
    obtain ⟨-, hcounted⟩ := plain_counted (s := s) [] hi
      (Pool.contents_viewOpened writable) (Pool.block_viewOpened writable)
    rw [hseen, hcounted, seen_of_pool hi]
  refine ⟨_, s', hexec, hkept.trans ?_, hviewing⟩
  rw [List.singleton_append, List.singleton_append] at hplain
  rw [hplain, plainView, hshown, plain_opened sound viewing hp hs hi hfree]
  simp only [hown]
  rfl

/-! ## Writing -/

/-- A write through a view shows in the particle that owns the slot. -/
theorem plain_written_through {v : OpenView} {views : List OpenView} {values : List Scalar}
    (wf : pl.WellFormed) (hi : s.world.pool? v.1 = some pl) (vw : s.world.Viewed (v :: views))
    (hwritable : v.2.writable = true) (hlt : v.2.position < pl.totalSlots)
    (hv : values.length = pl.stride) (p : Particle dim spacedim) :
    p.plain (v :: views) (s.world.setPool v.1 (pl.withBlock v.2.position values)) =
      (p.plain (v :: views) s.world).written v.1 values := by
  have hself : (s.world.setPool v.1 (pl.withBlock v.2.position values)).pool? v.1 =
      some (pl.withBlock v.2.position values) := pool?_setPool_self (by simp [hi])
  unfold PlainParticle.written
  show _ = if p.pool = some v.1 then _ else _
  cases hs : p.slot? with
  | none =>
    rw [plain_of_none hs, plain_of_none hs]
    split <;> rfl
  | some slot =>
    obtain ⟨j, h⟩ := slot
    obtain ⟨hpool, -, -⟩ := slot?_eq_some_iff.mp hs
    rw [hpool]
    by_cases hj : j = v.1
    · subst hj
      have hlent : lent (v :: views) (v.1, h) = (v.2.position == h.index.toNat) := by
        rw [lent, List.any_cons]
        have hbeside := vw.lent_beside (h := h) hwritable
        unfold lent at hbeside
        simp only [hbeside, hwritable, beq_self_eq_true, Bool.true_and, Bool.or_false]
      rw [if_pos rfl]
      unfold Particle.plain
      simp only [hs, Option.bind_some, hlent, contents_of_pool hself, contents_of_pool hi,
        Pool.contents_withBlock wf hlt hv]
      by_cases hindex : h.index.toNat = v.2.position
      · rw [if_pos hindex]
        cases pl.contents h <;> simp [hindex]
      · rw [if_neg hindex]
        cases pl.contents h <;> simp [Ne.symm hindex]
    · have hne : ¬ (some j = some v.1) := by simpa using hj
      rw [if_neg hne]
      unfold Particle.plain
      simp only [hs, Option.bind_some, contents, pool?_setPool_of_ne hj]

/-- A write through a view shows in the view, and in the particle that owns the slot. -/
theorem plain_through {v : OpenView} {values : List Scalar} (sound : s.Sound True)
    (viewing : s.Viewing) (hfound : s.views.find? key = some v) (hwritable : v.2.writable = true)
    (hi : s.world.pool? v.1 = some pl) (hv : values.length = pl.stride) :
    ({ s with world := s.world.setPool v.1 (pl.withBlock v.2.position values) } :
        Session dim spacedim).plain =
        { s.plain with
          views := Function.update s.plain.views key (some ⟨v.1, true, values⟩)
          particles := fun k => (s.plain.particles k).map (·.written v.1 values) } ∧
      ({ s with world := s.world.setPool v.1 (pl.withBlock v.2.position values) } :
        Session dim spacedim).Viewing := by
  have hvalues := Registry.values_of_find? viewing.ascending hfound
  have vw := viewing.viewed.perm hvalues
  obtain ⟨pl', hi', hlt⟩ := vw.shown v List.mem_cons_self
  rw [hi] at hi'
  cases hi'
  have wfp := sound.wellFormed.pool v.1 pl hi
  have hself : (s.world.setPool v.1 (pl.withBlock v.2.position values)).pool? v.1 =
      some (pl.withBlock v.2.position values) := pool?_setPool_self (by simp [hi])
  refine ⟨?_, viewing.ascending, viewing.viewed.setPool hi rfl rfl (Nat.le_refl _)⟩
  refine PlainSession.ext (plain_setPool_self hi rfl) rfl (funext fun k => ?_)
    (funext fun k => ?_) rfl
  · show (s.particles.find? k).map _ = ((s.particles.find? k).map _).map _
    rw [Option.map_map]
    refine Option.map_congr fun q _ => ?_
    have hwritten := plain_written_through wfp hi vw hwritable hlt hv q
    have hperm : ∀ w : World, q.plain s.views.values w =
        q.plain (v :: (s.views.erase key).values) w := fun w => by
      unfold Particle.plain
      simp only [lent_perm hvalues]
    rw [Function.comp_apply, hperm, hperm]
    exact hwritten
  · show (s.views.find? k).map _ =
      Function.update (Option.map (plainView s.world) ∘ s.views.find?) key _ k
    by_cases hk : k = key
    · rw [hk, Function.update_self, hfound, Option.map_some, plainView, seen_of_pool hself,
        Pool.block_withBlock_self (wfp.spans hlt) hv, hwritable]
    · rw [Function.update_of_ne hk]
      refine Option.map_congr fun u hu => ?_
      -- the view written through is the only one on its pool
      have hbeside : u ∈ (s.views.erase key).values := by
        have hkept : (s.views.erase key).find? k = some u := by
          rw [Registry.find?_erase_of_ne _ hk]
          exact hu
        exact Registry.mem_values_of_find? hkept
      have hne := vw.alone hwritable hbeside
      rw [plainView, plainView, seen, seen, pool?_setPool_of_ne hne]

end Session

namespace StepM

open Session

section Steps

variable (sound : s.Sound True) (viewing : s.Viewing)

include sound viewing

theorem openView_agrees :
    Agrees (finish ((openView dest i (.ofParticle key) writable).exec s))
      (s.plain.openView dest i key writable) := by
  unfold openView PlainSession.openView
  rw [exec_poolPosition_bind, found_pool]
  cases hi : s.world.pool? i with
  | none => exact ⟨rfl, rfl, viewing⟩
  | some pl =>
    have wfp := sound.wellFormed.pool i pl hi
    simp only
    rw [exec_handle_bind, found_particle]
    cases hp : s.particles.find? key with
    | none =>
      simp only [named?, hp]
      exact ⟨rfl, rfl, viewing⟩
    | some p =>
      simp only [named?, hp, Option.map_some]
      rw [exec_actOnPool_bind, World.exec_onPool_decided hi (Pool.openView_eq wfp writable),
        viewRefused?_plain sound hp hi]
      cases hrefused : (pl.flawed? p.handle).or (if writable then pl.viewed? else pl.written?) with
      | some cause => exact ⟨rfl, rfl, viewing⟩
      | none =>
        rw [Option.or_eq_none_iff] at hrefused
        have hs := slot?_of_flawed? sound hp hi hrefused.1
        obtain ⟨result, s', hexec, hplain, hviewing⟩ :=
          plain_openedAs dest sound viewing hp hs hi hrefused.2
        simp only [decided_none]
        rw [exec_bind, hexec]
        exact ⟨rfl, hplain, hviewing⟩

theorem readView_agrees :
    Agrees (finish ((ofStep (.readView key) : StepM dim spacedim _).exec s))
      (s.plain.perform (.readView key)) := by
  simp only [ofStep]
  rw [exec_bind, exec_viewed_eq viewing sound, PlainSession.perform_readView, found_view]
  cases s.views.find? key with
  | none => exact ⟨rfl, rfl, viewing⟩
  | some v => exact ⟨rfl, rfl, viewing⟩

theorem writeView_agrees (new : List Scalar) :
    Agrees (finish ((writeView key new).exec s)) (s.plain.writeView key new) := by
  unfold writeView PlainSession.writeView
  rw [exec_view_bind, found_view]
  cases hv : s.views.find? key with
  | none => exact ⟨rfl, rfl, viewing⟩
  | some v =>
    simp only
    cases hwritable : v.2.writable with
    | false =>
      have hkind : (plainView s.world v).writable = false := hwritable
      rw [hkind]
      exact ⟨rfl, rfl, viewing⟩
    | true =>
      have hkind : (plainView s.world v).writable = true := hwritable
      obtain ⟨pl, hi, hlt⟩ := viewing.viewed.shown v (Registry.mem_values_of_find? hv)
      have wfp := sound.wellFormed.pool v.1 pl hi
      have hspans := wfp.spans hlt
      have hlen : (overlay new (pl.block v.2.position)).length = pl.stride := by
        rw [length_overlay, Pool.length_block hspans]
      have hseen : (plainView s.world v).values = pl.block v.2.position := seen_of_pool hi
      obtain ⟨hplain, hviewing⟩ := plain_through sound viewing hv hwritable hi hlen
      rw [hkind, hseen]
      simp only [if_true]
      rw [exec_actOnPool_bind, World.exec_onPool, hi]
      simp only [Pool.overwriteAt_eq hspans]
      exact ⟨rfl, hplain, hviewing⟩

omit sound in
theorem closeView_agrees :
    Agrees (finish ((ofStep (.closeView key) : StepM dim spacedim _).exec s))
      (s.plain.perform (.closeView key)) := by
  obtain ⟨s', hexec, hplain, hviews, vw, -⟩ := plain_shut key [] viewing.ascending
    (by simpa using viewing.viewed)
  simp only [ofStep]
  rw [exec_bind, hexec]
  refine ⟨?_, hplain, hviews ▸ Registry.ascending_erase viewing.ascending key, vw⟩
  show Answer.flag (s.views.find? key).isSome = .flag ((s.views.find? key).map _).isSome
  rw [Option.isSome_map]

end Steps

end StepM

end ParticleStore
