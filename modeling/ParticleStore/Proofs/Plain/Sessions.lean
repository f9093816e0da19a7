/-
ParticleStore.Proofs.Plain.Sessions — sessions as plain ones.

The plain session of a session (`Session.plain`) has its pools, particles and views as
plain ones under the same keys. Here is what becomes of it when the session
changes: a particle is changed in its place (`plain_revised`), stored (`plain_stored`)
or dropped, a view is closed (`plain_shut`). Each time the frame rule says that all
other particles show what they showed, so that only the key concerned changes.
-/
import ParticleStore.Proofs.Plain.Records
import ParticleStore.Proofs.Session.Ownership

namespace ParticleStore

open ParticleStore.Action Particle World StepM

variable {dim spacedim : Nat} {s : Session dim spacedim} {w' : World} {key i b : Nat} {pl pl' : Pool}
  {views : List OpenView} {p p' : Particle dim spacedim}

namespace Session

/-- The views are kept under ascending keys, and they are the open views of the world. -/
structure Viewing (s : Session dim spacedim) : Prop where
  ascending : s.views.Ascending
  viewed : s.world.Viewed s.views.values

/-- Where particles are the sole holders of slots, each one owns its slot. -/
theorem Sound.owning (sound : s.Sound True) (hp : s.particles.find? key = some p) :
    p.Owning s.world :=
  Owning.of_tenancy sound.2 (Registry.mem_values_of_find? hp)

theorem viewing_empty : Viewing ({} : Session dim spacedim) :=
  ⟨Registry.ascending_empty, .empty⟩

/-- A view as a plain one. -/
def plainView (w : World) (v : OpenView) : PlainView := ⟨v.1, v.2.writable, w.seen v⟩

/-- The session as a plain one, in which the views listed are open. -/
def plainWith (views : List OpenView) (s : Session dim spacedim) : PlainSession dim spacedim where
  pools := s.world.plain
  nextId := s.world.nextId
  particles := Option.map (Particle.plain views s.world) ∘ s.particles.find?
  views := Option.map (plainView s.world) ∘ s.views.find?
  buffers := s.bytes

/-- The session as a plain one. -/
def plain (s : Session dim spacedim) : PlainSession dim spacedim := s.plainWith s.views.values

/-! ## Keys -/

theorem plain_put (p : Particle dim spacedim) :
    ({ s with particles := s.particles.insert key p } : Session dim spacedim).plain =
      s.plain.put key (p.plain s.views.values s.world) := by
  refine PlainSession.ext rfl rfl ?_ rfl rfl
  show Option.map _ ∘ (s.particles.insert key p).find? = _
  rw [Registry.find?_insert, Function.comp_update]
  rfl

theorem plain_fill (data : Bytes) :
    ({ s with buffers := s.buffers.insert b data } : Session dim spacedim).plain =
      s.plain.fill b data := by
  refine PlainSession.ext rfl rfl rfl rfl ?_
  show (fun o => o.getD []) ∘ (s.buffers.insert b data).find? = _
  rw [Registry.find?_insert, Function.comp_update]
  rfl

/-! ## Worlds -/

/-- The world evolves around the particles of the session. -/
theorem plain_evolved (viewing : s.Viewing) (e : s.world.Evolves w')
    (hframe : ∀ q ∈ s.particles.values, ∀ slot ∈ q.slots,
      w'.contents slot.1 slot.2 = s.world.contents slot.1 slot.2) :
    ({ s with world := w' } : Session dim spacedim).plain = { s.plain with pools := w'.plain } ∧
      ({ s with world := w' } : Session dim spacedim).Viewing := by
  refine ⟨PlainSession.ext rfl e.nextId_eq (funext fun k => ?_) (funext fun k => ?_) rfl,
    viewing.ascending, viewing.viewed.evolves e⟩
  · refine Option.map_congr fun q hq => ?_
    exact plain_congr (hframe q (Registry.mem_values_of_find? hq))
  · refine Option.map_congr fun v hv => ?_
    rw [plainView, viewing.viewed.seen_eq e (Registry.mem_values_of_find? hv), plainView]

/-- A pool changes in what neither handles nor views show. -/
theorem plain_counted (views : List OpenView) (hp : s.world.pool? i = some pl)
    (hcontents : pl'.contents = pl.contents) (hblock : pl'.block = pl.block) :
    ({ s with world := s.world.setPool i pl' } : Session dim spacedim).plainWith views =
        { s.plainWith views with pools := (s.world.setPool i pl').plain } ∧
      ∀ v, (s.world.setPool i pl').seen v = s.world.seen v := by
  have hself : (s.world.setPool i pl').pool? i = some pl' := pool?_setPool_self (by simp [hp])
  have hshown : ∀ j h, (s.world.setPool i pl').contents j h = s.world.contents j h := by
    intro j h
    by_cases hj : j = i
    · rw [hj, contents_of_pool hself, contents_of_pool hp, hcontents]
    · rw [contents, pool?_setPool_of_ne hj, contents]
  have hseen : ∀ v, (s.world.setPool i pl').seen v = s.world.seen v := by
    rintro ⟨j, v⟩
    by_cases hj : j = i
    · subst hj
      rw [seen_of_pool hself, seen_of_pool hp, hblock]
    · rw [seen, pool?_setPool_of_ne hj, seen]
  refine ⟨PlainSession.ext rfl rfl (funext fun k => ?_) (funext fun k => ?_) rfl, hseen⟩
  · exact Option.map_congr fun q _ => plain_congr fun slot _ => hshown slot.1 slot.2
  · refine Option.map_congr fun v _ => ?_
    rw [plainView, hseen, plainView]

/-! ## Particles -/

/-- The particle under a key changes, and no other one. -/
theorem plain_revised (sound : s.Sound True) (viewing : s.Viewing)
    (hp : s.particles.find? key = some p) (made : p'.MadeFrom p.slots s.world w') :
    ({ s with world := w', particles := s.particles.insert key p' } : Session dim spacedim).plain =
        { s.plain.put key (p'.plain s.views.values w') with pools := w'.plain } ∧
      ({ s with world := w', particles := s.particles.insert key p' } :
        Session dim spacedim).Viewing := by
  -- the session without the key is the frame
  have hframe : ∀ q ∈ (s.particles.erase key).values, ∀ slot ∈ q.slots,
      w'.contents slot.1 slot.2 = s.world.contents slot.1 slot.2 := by
    intro q hq
    have htrade : Trade s.world (slotsOf [p]) w' p'.slots := by simpa using made.trade
    exact (sound.split hp).frame [p] htrade hq
  obtain ⟨hplain, hviewing⟩ := plain_evolved (s := { s with particles := s.particles.erase key })
    ⟨viewing.ascending, viewing.viewed⟩ made.trade.evolves hframe
  have hparticles := congrArg PlainSession.particles hplain
  simp only [plain, plainWith, Registry.find?_erase, Function.comp_update] at hparticles
  refine ⟨?_, hviewing.ascending, hviewing.viewed⟩
  refine PlainSession.ext rfl made.trade.evolves.nextId_eq ?_ ?_ rfl
  · show Option.map _ ∘ (s.particles.insert key p').find? = _
    rw [Registry.find?_insert, Function.comp_update]
    have hput := congrArg (Function.update · key (some (p'.plain s.views.values w'))) hparticles
    simp only [Function.update_idem] at hput
    exact hput
  · have hviews := congrArg PlainSession.views hplain
    exact hviews

/-- The particle under a key is dropped. -/
theorem plain_dropped (sound : s.Sound True) (viewing : s.Viewing)
    (hp : s.particles.find? key = some p) :
    ({ s with world := p.worldWithout s.world, particles := s.particles.erase key } :
        Session dim spacedim).plain =
        { s.plain with
          particles := Function.update s.plain.particles key none
          pools := (p.plain s.views.values s.world).release s.world.plain } ∧
      ({ s with world := p.worldWithout s.world, particles := s.particles.erase key } :
        Session dim spacedim).Viewing := by
  have owning := Owning.of_tenancy sound.2 (Registry.mem_values_of_find? hp)
  have htrade := trade_without [] sound.wellFormed owning.toPlaced
  have hframe : ∀ q ∈ (s.particles.erase key).values, ∀ slot ∈ q.slots,
      (p.worldWithout s.world).contents slot.1 slot.2 = s.world.contents slot.1 slot.2 :=
    fun q hq => (sound.split hp).frame [p] (by simpa using htrade) hq
  obtain ⟨hplain, hviewing⟩ := plain_evolved (s := { s with particles := s.particles.erase key })
    ⟨viewing.ascending, viewing.viewed⟩ htrade.evolves hframe
  refine ⟨hplain.trans ?_, hviewing⟩
  refine PlainSession.ext (plain_worldWithout _ owning sound.wellFormed) rfl ?_ rfl rfl
  show Option.map _ ∘ (s.particles.erase key).find? = _
  rw [Registry.find?_erase, Function.comp_update]
  rfl

/-- A particle in hand is stored under a key, and more of them stay in hand. -/
theorem plain_stored (key : Nat) (more : List (Particle dim spacedim)) (hasc : s.particles.Ascending)
    (t : Tenancy True s.world (p :: s.particles.values ++ more)) (viewing : s.Viewing) :
    (s.stored key p).plain = s.plain.store key (p.plain s.views.values s.world) ∧
      (s.stored key p).Viewing ∧
      ∀ q ∈ more, q.plain s.views.values (s.stored key p).world = q.plain s.views.values s.world := by
  unfold stored
  show _ = PlainSession.store _ _ _ ∧ _
  unfold PlainSession.store
  have hfound : s.plain.particles key =
      (s.particles.find? key).map (Particle.plain s.views.values s.world) := rfl
  rw [hfound]
  cases hold : s.particles.find? key with
  | none => exact ⟨plain_put p, ⟨viewing.ascending, viewing.viewed⟩, fun _ _ => rfl⟩
  | some old =>
    -- the particle that was there goes, and all others are the frame
    have hvalues := ((Registry.values_of_find? hasc hold).cons p).trans (.swap ..)
    have t' := t.perm (hvalues.append_right more)
    have owning := Owning.of_tenancy t' List.mem_cons_self
    have htrade := trade_without [] t.wellFormed owning.toPlaced
    have hframe : ∀ q ∈ p :: (s.particles.erase key).values ++ more, ∀ slot ∈ q.slots,
        (old.worldWithout s.world).contents slot.1 slot.2 = s.world.contents slot.1 slot.2 :=
      fun q hq => t'.frame [old] (by simpa using htrade) hq
    obtain ⟨hplain, hviewing⟩ := plain_evolved
      (s := { s with particles := s.particles.insert key p }) ⟨viewing.ascending, viewing.viewed⟩
      htrade.evolves fun q hq => hframe q (List.mem_append_left _
        ((Registry.values_insert hasc key p).mem_iff.mp hq))
    refine ⟨hplain.trans ?_, hviewing,
      fun q hq => plain_congr (hframe q (List.mem_append_right _ hq))⟩
    rw [plain_put, plain_worldWithout s.views.values owning t.wellFormed]
    rfl

/-! ## Views -/

theorem exec_viewed_eq (viewing : s.Viewing) (sound : s.Sound True) :
    (viewed key).exec s =
      match s.views.find? key with
      | some v => (.ok (s.world.seen v), s)
      | none => (.error (.unknown "view"), s) := by
  unfold viewed
  rw [exec_view_bind]
  cases hv : s.views.find? key with
  | none => rfl
  | some v =>
    obtain ⟨pl, hp, hlt⟩ := viewing.viewed.shown v (Registry.mem_values_of_find? hv)
    have hspans := (sound.wellFormed.pool v.1 pl hp).spans hlt
    simp only
    rw [exec_pool_bind, hp]
    simp only [Pool.slotValues_eq hspans, seen_of_pool hp]
    rfl

/-- The particle gets its values back when the write view of them is closed. -/
theorem plain_returned {v : OpenView} (vw : s.world.Viewed (v :: views))
    (hwritable : v.2.writable = true) :
    (p.plain (v :: views) s.world).returned v.1 = p.plain views s.world := by
  unfold PlainParticle.returned
  show (if p.pool = some v.1 then _ else _) = _
  cases hs : p.slot? with
  | none =>
    rw [plain_of_none hs, plain_of_none hs]
    split <;> rfl
  | some slot =>
    obtain ⟨i, h⟩ := slot
    obtain ⟨hpool, -, -⟩ := slot?_eq_some_iff.mp hs
    have hlent : lent (v :: views) (i, h) =
        (v.2.writable && (v.1 == i && v.2.position == h.index.toNat) || lent views (i, h)) := by
      rw [lent, List.any_cons, lent]
    rw [hpool]
    by_cases hi : i = v.1
    · have hfree : lent views (i, h) = false := hi ▸ vw.lent_beside hwritable
      rw [if_pos (by rw [hi])]
      unfold Particle.plain
      simp only [hs, Option.bind_some, hfree]
      cases s.world.contents i h <;> rfl
    · have hne : (v.1 == i) = false := by simpa using Ne.symm hi
      rw [if_neg (by simpa using hi)]
      rw [hne, Bool.false_and, Bool.and_false, Bool.false_or] at hlent
      unfold Particle.plain
      simp only [hs, Option.bind_some, hlent]

/-- The view under a key is closed, and some more stay open beside those that are kept. -/
theorem plain_shut (key : Nat) (extra : List OpenView) (hasc : s.views.Ascending)
    (vw : s.world.Viewed (extra ++ s.views.values)) :
    ∃ s' : Session dim spacedim, (shutView key).exec s = (.ok (s.views.find? key).isSome, s') ∧
      s'.plainWith (extra ++ s'.views.values) =
        (s.plainWith (extra ++ s.views.values)).shutView key ∧
      s'.views = s.views.erase key ∧ s'.world.Viewed (extra ++ s'.views.values) ∧
      ∀ v, s'.world.seen v = s.world.seen v := by
  have hfound : (s.plainWith (extra ++ s.views.values)).views key =
      (s.views.find? key).map (plainView s.world) := rfl
  rw [exec_shutView, PlainSession.shutView, hfound]
  cases hv : s.views.find? key with
  | none =>
    refine ⟨s, rfl, rfl, ?_, vw, fun _ => rfl⟩
    rw [Registry.erase_of_find?_none hv]
  | some v =>
    obtain ⟨i, v⟩ := v
    have hvalues : (extra ++ s.views.values).Perm ((i, v) :: (extra ++ (s.views.erase key).values)) :=
      ((Registry.values_of_find? hasc hv).append_left extra).trans List.perm_middle
    have vw' := vw.perm hvalues
    obtain ⟨pl, hp, -⟩ := vw'.shown (i, v) List.mem_cons_self
    simp only [hp]
    have hcontents : (pl.closeView v).contents = pl.contents := by
      unfold Pool.closeView
      split <;> rfl
    have hblock : (pl.closeView v).block = pl.block := by
      unfold Pool.closeView
      split <;> rfl
    obtain ⟨hcounted, hviewed⟩ := plain_counted (s := { s with views := s.views.erase key })
      (extra ++ (s.views.erase key).values) hp hcontents hblock
    refine ⟨_, rfl, hcounted.trans ?_, rfl, vw'.closed hp, hviewed⟩
    refine PlainSession.ext (plain_setPool hp (Pool.plain_closeView v)) rfl (funext fun k => ?_) ?_ rfl
    · show (s.particles.find? k).map (Particle.plain (extra ++ (s.views.erase key).values) s.world) =
        (if v.writable = true then (_ : Nat → Option (PlainParticle dim spacedim)) else _) k
      have hperm : ∀ q : Particle dim spacedim, q.plain (extra ++ s.views.values) s.world =
          q.plain ((i, v) :: (extra ++ (s.views.erase key).values)) s.world := by
        intro q
        unfold Particle.plain
        simp only [lent_perm hvalues]
      cases hkind : v.writable with
      | true =>
        show _ = ((s.particles.find? k).map _).map _
        rw [Option.map_map]
        refine Option.map_congr fun q _ => ?_
        rw [Function.comp_apply, hperm]
        exact (plain_returned vw' hkind).symm
      | false =>
        refine Option.map_congr fun q _ => ?_
        rw [hperm]
        unfold Particle.plain
        simp [lent, hkind]
    · show Option.map _ ∘ (s.views.erase key).find? = _
      rw [Registry.find?_erase, Function.comp_update]
      rfl

end Session

end ParticleStore
