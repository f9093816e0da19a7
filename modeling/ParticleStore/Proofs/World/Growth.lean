/-
ParticleStore.Proofs.World.Growth — more live slots, and fewer.

`Gains` and `Loses` compare two worlds, however many steps lie between them. A world that
gains slots shows values through each of them that showed nothing before, and shows
what it showed through every other live slot. A world that loses slots shows nothing
through them afterwards. Both are closed under composition, the lists of slots being
joined: a slot cannot be gained twice, for it shows values after the first time, and it
cannot be lost twice either.
-/
import ParticleStore.Proofs.World.Ownership
import Mathlib.Data.List.Nodup

namespace ParticleStore.World

variable {w w' w'' : World} {i j : Nat} {p p' : Pool} {h : Handle} {values : List Scalar}
  {entry : Option (List Scalar)} {slots slots' : List HeldSlot}

theorem pool?_of_pools (hpools : w'.pools = w.pools) : w'.pool? i = w.pool? i := by
  rw [pool?, hpools, pool?]

theorem contents_of_pools (hpools : w'.pools = w.pools) : w'.contents i h = w.contents i h := by
  rw [contents, pool?_of_pools hpools, contents]

theorem exists_pool?_of_contents (hsome : (w.contents i h).isSome) :
    ∃ p, w.pool? i = some p ∧ (p.contents h).isSome := by
  simpa [contents, Option.isSome_bind, Option.any_eq_true] using hsome

/-- Only the pool with the entry may count another number of live slots. -/
theorem Update.live_add (u : w.Update i h entry w') (hp : w.pool? j = some p)
    (hp' : w'.pool? j = some p') :
    p'.live + (if i = j then (w.contents i h).isSome.toNat else 0) =
      p.live + if i = j then entry.isSome.toNat else 0 := by
  by_cases hj : i = j
  · subst hj
    obtain ⟨q, q', hq, hq', u'⟩ := u.pool?_self
    rw [hp] at hq
    rw [hp'] at hq'
    cases hq
    cases hq'
    rw [if_pos rfl, if_pos rfl, contents_of_pool hp, u'.live_add]
  · rw [u.pool?_of_ne (Ne.symm hj), hp] at hp'
    cases hp'
    rw [if_neg hj, if_neg hj]

/-! ## More -/

/-- The world `w'` is `w` with the slots in the list live as well, each of them once. -/
structure Gains (w : World) (slots : List HeldSlot) (w' : World) : Prop where
  evolves : w.Evolves w'
  kept : ∀ i h, (w.contents i h).isSome → w'.contents i h = w.contents i h
  new : ∀ slot ∈ slots, w.contents slot.1 slot.2 = none ∧ (w'.contents slot.1 slot.2).isSome
  nodup : slots.Nodup
  live_eq : ∀ i p p', w.pool? i = some p → w'.pool? i = some p' →
    p'.live = p.live + slots.countP fun slot => slot.1 == i

namespace Gains

theorem of_pools (hpools : w'.pools = w.pools) (hnext : w'.nextId = w.nextId) :
    w.Gains [] w' := by
  refine ⟨.of_pools hpools hnext, fun i h _ => contents_of_pools hpools, fun slot hslot => ?_, .nil,
    fun i p p' hp hp' => ?_⟩
  · cases hslot
  · rw [pool?_of_pools hpools, hp] at hp'
    cases hp'
    rfl

theorem refl (w : World) : w.Gains [] w := .of_pools rfl rfl

/-- A slot that showed nothing is filled. -/
theorem of_update (hnone : w.contents i h = none) (u : w.Update i h (some values) w') :
    w.Gains [(i, h)] w' where
  evolves := u.evolves
  kept j k hsome := u.contents_of_ne fun hsame => by
    rw [hsame.1, hsame.2, hnone] at hsome
    cases hsome
  new slot hslot := by
    obtain rfl := List.mem_singleton.mp hslot
    refine ⟨hnone, ?_⟩
    rw [u.contents_self]
    rfl
  nodup := List.nodup_singleton _
  live_eq j p p' hp hp' := by
    have hlive := u.live_add hp hp'
    rw [hnone] at hlive
    simpa [List.countP_cons] using hlive

theorem trans (g : w.Gains slots w') (g' : w'.Gains slots' w'') :
    w.Gains (slots ++ slots') w'' where
  evolves := g.evolves.trans g'.evolves
  kept i h hsome := by
    have hkept := g.kept i h hsome
    rw [← hkept] at hsome
    exact (g'.kept i h hsome).trans hkept
  new slot hslot := by
    rcases List.mem_append.mp hslot with hfirst | hsecond
    · obtain ⟨hnone, hsome⟩ := g.new slot hfirst
      refine ⟨hnone, ?_⟩
      rwa [g'.kept _ _ hsome]
    · obtain ⟨hnone, hsome⟩ := g'.new slot hsecond
      refine ⟨?_, hsome⟩
      rw [← Option.not_isSome_iff_eq_none]
      intro hold
      rw [← g.kept _ _ hold, hnone] at hold
      cases hold
  nodup := by
    refine List.nodup_append.mpr ⟨g.nodup, g'.nodup, fun slot hfirst slot' hsecond hsame => ?_⟩
    subst hsame
    have hsome := (g.new slot hfirst).2
    rw [(g'.new slot hsecond).1] at hsome
    cases hsome
  live_eq i p p'' hp hp'' := by
    obtain ⟨p', hp', -⟩ := g.evolves.pool i p hp
    rw [g'.live_eq i p' p'' hp' hp'', g.live_eq i p p' hp hp', List.countP_append, Nat.add_assoc]

end Gains

/-- A handle names slots of one pool only, so a new slot's handle is no live slot's. -/
theorem ne_handle_of_contents (wf : w.WellFormed) (hp : w.pool? i = some p) (hid : h.pool = p.id)
    (hnone : w.contents i h = none) {k : Handle} (hsome : (w.contents j k).isSome) : h ≠ k := by
  rintro rfl
  obtain ⟨q, hq, hshown⟩ := exists_pool?_of_contents hsome
  rw [Pool.isSome_contents (wf.pool j q hq), hid] at hshown
  obtain rfl := wf.id_inj i j p q hp hq hshown.1
  rw [hnone] at hsome
  cases hsome

/-! ## Fewer -/

/-- The world `w'` is `w` without the live slots in the list. -/
structure Loses (w : World) (slots : List HeldSlot) (w' : World) : Prop where
  evolves : w.Evolves w'
  kept : ∀ i h, (i, h) ∉ slots → w'.contents i h = w.contents i h
  gone : ∀ slot ∈ slots, (w.contents slot.1 slot.2).isSome ∧ w'.contents slot.1 slot.2 = none
  nodup : slots.Nodup
  live_eq : ∀ i p p', w.pool? i = some p → w'.pool? i = some p' →
    p.live = p'.live + slots.countP fun slot => slot.1 == i

namespace Loses

theorem of_pools (hpools : w'.pools = w.pools) (hnext : w'.nextId = w.nextId) :
    w.Loses [] w' := by
  refine ⟨.of_pools hpools hnext, fun i h _ => contents_of_pools hpools, fun slot hslot => ?_, .nil,
    fun i p p' hp hp' => ?_⟩
  · cases hslot
  · rw [pool?_of_pools hpools, hp] at hp'
    cases hp'
    rfl

theorem refl (w : World) : w.Loses [] w := .of_pools rfl rfl

/-- A live slot is released. -/
theorem of_update (hsome : (w.contents i h).isSome) (u : w.Update i h none w') :
    w.Loses [(i, h)] w' where
  evolves := u.evolves
  kept j k hout := u.contents_of_ne fun hsame => hout (by simp [hsame.1, hsame.2])
  gone slot hslot := by
    obtain rfl := List.mem_singleton.mp hslot
    exact ⟨hsome, u.contents_self⟩
  nodup := List.nodup_singleton _
  live_eq j p p' hp hp' := by
    have hlive := u.live_add hp hp'
    rw [hsome] at hlive
    simpa [List.countP_cons] using hlive.symm

theorem trans (l : w.Loses slots w') (l' : w'.Loses slots' w'') :
    w.Loses (slots ++ slots') w'' where
  evolves := l.evolves.trans l'.evolves
  kept i h hout := by
    rw [List.mem_append, not_or] at hout
    exact (l'.kept i h hout.2).trans (l.kept i h hout.1)
  gone slot hslot := by
    by_cases hsecond : slot ∈ slots'
    · obtain ⟨hsome, hnone⟩ := l'.gone slot hsecond
      refine ⟨?_, hnone⟩
      by_cases hfirst : slot ∈ slots
      · exact (l.gone slot hfirst).1
      · rwa [← l.kept _ _ hfirst]
    · obtain ⟨hsome, hnone⟩ := l.gone slot ((List.mem_append.mp hslot).resolve_right hsecond)
      exact ⟨hsome, (l'.kept _ _ hsecond).trans hnone⟩
  nodup := by
    refine List.nodup_append.mpr ⟨l.nodup, l'.nodup, fun slot hfirst slot' hsecond hsame => ?_⟩
    subst hsame
    have hsome := (l'.gone slot hsecond).1
    rw [(l.gone slot hfirst).2] at hsome
    cases hsome
  live_eq i p p'' hp hp'' := by
    obtain ⟨p', hp', -⟩ := l.evolves.pool i p hp
    rw [l.live_eq i p p' hp hp', l'.live_eq i p' p'' hp' hp'', List.countP_append]
    omega

/-- The order in which slots are lost makes no difference. -/
theorem perm (l : w.Loses slots w') (hperm : slots.Perm slots') : w.Loses slots' w' where
  evolves := l.evolves
  kept i h hout := l.kept i h fun hmem => hout (hperm.mem_iff.mp hmem)
  gone slot hslot := l.gone slot (hperm.mem_iff.mpr hslot)
  nodup := hperm.nodup_iff.mp l.nodup
  live_eq i p p' hp hp' := by rw [← hperm.countP_eq, l.live_eq i p p' hp hp']

end Loses

end ParticleStore.World
