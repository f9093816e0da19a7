/-
ParticleStore.Proofs.World.Freezing — pools while a view is open on them.

A view does not hold its slot: releasing looks at no view, so the slot may be released
under it. What keeps its values where they are is that nothing is written while the view
is open, and that no slot is taken, neither that one nor any other. So all that the calls
which have nothing to do with views can do to such a pool is release slots
(`Pool.OnlyReleases`, `Effect.frozen`), and the same views stay open (`Effect.viewed`).
-/
import ParticleStore.Proofs.World.Effects
import ParticleStore.Proofs.World.Views

namespace ParticleStore

namespace Pool

variable {p p' p'' : Pool} {h : Handle}

/-- The table of `p'` is that of `p`, but that slots were released. -/
structure OnlyReleases (p p' : Pool) : Prop where
  id_eq : p'.id = p.id
  config_eq : p'.config = p.config
  slot : ∀ j : Nat, p'.slots[j]? = p.slots[j]? ∨
    ∃ generation : UInt32, p.slots[j]? = some ⟨generation, true⟩ ∧
      p'.slots[j]? = some ⟨generation + 1, false⟩

namespace OnlyReleases

theorem of_slots (hid : p'.id = p.id) (hconfig : p'.config = p.config)
    (hslots : p'.slots = p.slots) :
    p.OnlyReleases p' :=
  ⟨hid, hconfig, fun j => .inl (by rw [hslots])⟩

theorem refl (p : Pool) : p.OnlyReleases p := .of_slots rfl rfl rfl

/-- No slot is released twice: it would have to be taken in between. -/
theorem trans (o : p.OnlyReleases p') (o' : p'.OnlyReleases p'') : p.OnlyReleases p'' := by
  refine ⟨o'.id_eq.trans o.id_eq, o'.config_eq.trans o.config_eq, fun j => ?_⟩
  rcases o'.slot j with hsame | ⟨generation, hlive, hdead⟩
  · rw [hsame]
    exact o.slot j
  · rcases o.slot j with hsame | ⟨_, -, hdead'⟩
    · exact .inr ⟨generation, hsame ▸ hlive, hdead⟩
    · rw [hdead'] at hlive
      cases hlive

theorem released (wf : p.WellFormed) (hgood : p.flawed? h = none) :
    p.OnlyReleases (p.released h) := by
  have hlive := liveAt_of_flawed? wf hgood
  refine ⟨rfl, rfl, fun j => ?_⟩
  rw [getElem?_slots_released hlive]
  split
  · rename_i hj
    exact .inr ⟨h.generation, hj ▸ hlive, rfl⟩
  · exact .inl rfl

/-- A handle that shows something showed something before: no slot has a new owner. -/
theorem isSome_contents (o : p.OnlyReleases p') (wf : p.WellFormed) (wf' : p'.WellFormed)
    (hsome : (p'.contents h).isSome) : (p.contents h).isSome := by
  rw [Pool.isSome_contents wf', o.id_eq, LiveAt] at hsome
  rw [Pool.isSome_contents wf, LiveAt]
  rcases o.slot h.index.toNat with hsame | ⟨_, -, hdead⟩
  · rwa [hsame] at hsome
  · simp [hdead] at hsome

end OnlyReleases

namespace SameViews

theorem refl (p : Pool) : p.SameViews p := ⟨rfl, rfl, fun _ => rfl⟩

theorem isViewed_eq (v : p.SameViews p') : p'.isViewed = p.isViewed := by
  rw [isViewed, v.readers_eq, v.writers_eq, isViewed]

theorem trans (v : p.SameViews p') (v' : p'.SameViews p'') : p.SameViews p'' where
  readers_eq := v'.readers_eq.trans v.readers_eq
  writers_eq := v'.writers_eq.trans v.writers_eq
  scalars_eq hviewed :=
    (v'.scalars_eq (v.isViewed_eq.trans hviewed)).trans (v.scalars_eq hviewed)

end SameViews

end Pool

namespace World

variable {w w' : World} {i : Nat} {p : Pool} {views : List OpenView} {events : List SlotEvent}

namespace Effect

/-- **All that a quiet call can do to a pool with an open view is release a slot.** -/
theorem frozen (e : w.Effect true events w') (wf : w.WellFormed) (hp : w.pool? i = some p)
    (hview : p.isViewed = true) :
    ∃ p', w'.pool? i = some p' ∧ p.OnlyReleases p' ∧ p.SameViews p' := by
  -- a call on another pool leaves this one as it is
  have other {j : Nat} {q q' : Pool} (hq : w.pool? j = some q) (hpools : w'.pools = w.pools.set j q')
      (hj : i ≠ j) : ∃ p', w'.pool? i = some p' ∧ p.OnlyReleases p' ∧ p.SameViews p' :=
    ⟨p, by rw [pool?_of_set hq hpools, if_neg hj]; exact hp, .refl p, .refl p⟩
  cases e with
  | idle hpools => exact ⟨p, by rw [pool?, hpools]; exact hp, .refl p, .refl p⟩
  | made hpools =>
    exact ⟨p, by rw [pool?_append hpools, if_neg (Nat.ne_of_lt (lt_of_pool? hp))]; exact hp,
      .refl p, .refl p⟩
  | @changed _ j q q' hq hpools htable hviews =>
    by_cases hj : i = j
    · subst hj
      rw [hp] at hq
      cases hq
      exact ⟨q', by rw [pool?_of_set hp hpools, if_pos rfl],
        .of_slots htable.id_eq htable.config_eq htable.slots_eq, hviews rfl⟩
    · exact other hq hpools hj
  | @issued _ j q q' values hq hpools hunviewed =>
    by_cases hj : i = j
    · subst hj
      rw [hp] at hq
      cases hq
      rw [hunviewed] at hview
      cases hview
    · exact other hq hpools hj
  | @released _ j q h hq hpools hgood =>
    by_cases hj : i = j
    · subst hj
      rw [hp] at hq
      cases hq
      exact ⟨p.released h, by rw [pool?_of_set hp hpools, if_pos rfl],
        .released (wf.pool i p hp) hgood, rfl, rfl, fun _ => rfl⟩
    · exact other hq hpools hj

/-- A quiet call leaves the views open. -/
theorem viewed (e : w.Effect true events w') (vw : w.Viewed views) : w'.Viewed views := by
  cases e with
  | idle hpools => exact vw.of_pools hpools
  | made hpools _ hreaders hwriters => exact vw.addPool hpools hreaders hwriters
  | changed hq hpools htable hviews =>
    have hset := vw.setPool hq (hviews rfl).readers_eq (hviews rfl).writers_eq
      (Nat.le_of_eq (congrArg List.length htable.slots_eq.symm))
    exact hset.of_pools hpools
  | issued hq hpools _ u =>
    exact (vw.setPool hq u.readers_eq u.writers_eq u.totalSlots_le).of_pools hpools
  | @released _ j q h hq hpools =>
    have hle : q.totalSlots ≤ (q.released h).totalSlots := Nat.le_of_eq Pool.totalSlots_released.symm
    have hset : (w.setPool j (q.released h)).Viewed views := vw.setPool hq rfl rfl hle
    exact hset.of_pools hpools

end Effect

namespace Leads

/-- What the calls that have nothing to do with views keep of the pools and the views. -/
theorem viewed (leads : w.Leads PoolCall.isQuiet events w') (wf : w.WellFormed)
    (vw : w.Viewed views) : w'.WellFormed ∧ w'.Viewed views := by
  refine leads.keeps (P := fun w => w.WellFormed ∧ w.Viewed views) ?_ ⟨wf, vw⟩
  rintro w c hquiet ⟨wf, vw⟩
  obtain ⟨wf', effect⟩ := effect_call wf c
  rw [hquiet] at effect
  exact ⟨wf', effect.viewed vw⟩

/-- A pool with an open view, after calls that have nothing to do with views. -/
theorem frozen (leads : w.Leads PoolCall.isQuiet events w') (wf : w.WellFormed)
    (hp : w.pool? i = some p) (hview : p.isViewed = true) :
    ∃ p', w'.pool? i = some p' ∧ p.OnlyReleases p' ∧ p.SameViews p' := by
  refine (leads.keeps (P := fun w => w.WellFormed ∧
    ∃ p', w.pool? i = some p' ∧ p.OnlyReleases p' ∧ p.SameViews p') ?_
      ⟨wf, p, hp, .refl p, .refl p⟩).2
  rintro w c hquiet ⟨wf, p₁, hp₁, only, same⟩
  obtain ⟨wf', effect⟩ := effect_call wf c
  rw [hquiet] at effect
  obtain ⟨p₂, hp₂, only', same'⟩ := effect.frozen wf hp₁ (same.isViewed_eq.trans hview)
  exact ⟨wf', p₂, hp₂, only.trans only', same.trans same'⟩

end Leads

end World

end ParticleStore
