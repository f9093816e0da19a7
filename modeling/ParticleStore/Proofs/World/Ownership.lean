/-
ParticleStore.Proofs.World.Ownership — slots in somebody's hands.

`Owns w held` says that the slots in the list `held` are the live slots of the world,
each of them once: every one of them shows values, none is listed twice, and each
pool counts as many live slots as are listed for it. It depends on no order of the list
(`Owns.perm`), so the slots of one particle can be looked at beside all others.

A `Trade` is what holders can do with their slots: write values into one, take a new
one, give one back, forget one that is not live any more. `Trade.owns` is the frame
rule: whatever else is held beside the slots traded stays held, and shows what it
showed before.
-/
import ParticleStore.Proofs.World.Update
import Mathlib.Data.List.Perm.Basic

namespace ParticleStore.World

/-- A slot that somebody holds: the position of its pool, and its handle. -/
abbrev HeldSlot : Type := Nat × Handle

/-- What the holders of the slots `held` can do, who hold the slots `held'` afterwards. -/
inductive Trade : World → List HeldSlot → World → List HeldSlot → Prop
  | refl (w : World) (held : List HeldSlot) : Trade w held w held
  | trans {w w' w'' : World} {held held' held'' : List HeldSlot} :
      Trade w held w' held' → Trade w' held' w'' held'' → Trade w held w'' held''
  | perm (w : World) {held held' : List HeldSlot} : held.Perm held' → Trade w held w held'
  | note (w : World) (held : List HeldSlot) {e : Event} : e.level ≠ .warn →
      Trade w held { w with events := w.events ++ [e] } held
  | write {w w' : World} {held : List HeldSlot} {i : Nat} {h : Handle} {values : List Scalar} :
      (i, h) ∈ held → (w.contents i h).isSome → w.Update i h (some values) w' → Trade w held w' held
  | take {w w' : World} {held : List HeldSlot} {i : Nat} {h : Handle} {values : List Scalar} :
      w.contents i h = none → w.Update i h (some values) w' → Trade w held w' ((i, h) :: held)
  | release {w w' : World} {held : List HeldSlot} {i : Nat} {h : Handle} :
      (w.contents i h).isSome → w.Update i h none w' → Trade w ((i, h) :: held) w' held
  /-- A slot that is not live any more is forgotten, with a warning. -/
  | forget {w : World} {held : List HeldSlot} {i : Nat} {h : Handle} {e : Event} :
      w.contents i h = none →
      Trade w ((i, h) :: held) { w with events := w.events ++ [e] } held

variable {w w' w'' : World} {i : Nat} {h : Handle} {values : List Scalar} {slot : HeldSlot}
  {held held' held'' rest : List HeldSlot}

/-- The live slots are the ones in the list, each of them once. -/
structure Owns (w : World) (held : List HeldSlot) : Prop where
  live : ∀ slot ∈ held, (w.contents slot.1 slot.2).isSome
  nodup : held.Nodup
  count : ∀ i p, w.pool? i = some p → p.live = held.countP fun slot => slot.1 == i

namespace Owns

theorem perm (owns : w.Owns held) (hperm : held.Perm held') : w.Owns held' where
  live slot hslot := owns.live slot (hperm.mem_iff.mpr hslot)
  nodup := hperm.nodup_iff.mp owns.nodup
  count i p hp := by rw [← hperm.countP_eq, owns.count i p hp]

/-- Events are no matter of ownership. -/
theorem of_pools (owns : w.Owns held) (hpools : w'.pools = w.pools) : w'.Owns held := by
  have hsame : ∀ i, w'.pool? i = w.pool? i := fun i => by rw [pool?, hpools, pool?]
  refine ⟨fun slot hslot => ?_, owns.nodup, fun i p hp => owns.count i p ?_⟩
  · rw [contents, hsame]
    exact owns.live slot hslot
  · rwa [← hsame]

/-- A pool may change as long as the same handles show something. -/
theorem setPool {p p' : Pool} (owns : w.Owns held) (hp : w.pool? i = some p) (alike : p.Alike p') :
    (w.setPool i p').Owns held := by
  have hself : (w.setPool i p').pool? i = some p' := pool?_setPool_self (by simp [hp])
  refine ⟨fun slot hslot => ?_, owns.nodup, fun j q hq => ?_⟩
  · have hshown := owns.live slot hslot
    by_cases hj : slot.1 = i
    · rw [hj, contents_of_pool hp] at hshown
      rw [hj, contents_of_pool hself, alike.isSome_eq]
      exact hshown
    · rw [contents, pool?_setPool_of_ne hj]
      exact hshown
  · by_cases hj : j = i
    · subst hj
      rw [hself] at hq
      cases hq
      rw [alike.live_eq]
      exact owns.count j p hp
    · rw [pool?_setPool_of_ne hj] at hq
      exact owns.count j q hq

/-- Nobody holds a slot of a new pool. -/
theorem addPool {p : Pool} (owns : w.Owns held) (hpools : w'.pools = w.pools ++ [p])
    (hlive : p.live = 0) : w'.Owns held := by
  have hlt : ∀ slot ∈ held, slot.1 < w.pools.length := by
    intro slot hslot
    have hshown := owns.live slot hslot
    rw [contents, Option.isSome_bind, Option.any_eq_true] at hshown
    obtain ⟨q, hq, -⟩ := hshown
    exact lt_of_pool? hq
  refine ⟨fun slot hslot => ?_, owns.nodup, fun j q hq => ?_⟩
  · rw [contents, pool?_append hpools, if_neg (Nat.ne_of_lt (hlt slot hslot))]
    exact owns.live slot hslot
  · rw [pool?_append hpools] at hq
    split at hq
    · rename_i hj
      cases hq
      rw [hlive, eq_comm, List.countP_eq_zero]
      intro slot hslot
      simpa [hj] using Nat.ne_of_lt (hlt slot hslot)
    · exact owns.count j q hq

/-- A slot that shows nothing is not held. -/
theorem ne_of_contents (owns : w.Owns held) (hslot : slot ∈ held) (hnone : w.contents i h = none) :
    ¬ (slot.1 = i ∧ slot.2 = h) := by
  rintro ⟨rfl, rfl⟩
  have hlive := owns.live slot hslot
  rw [hnone] at hlive
  cases hlive

/-- The slots of a pool are counted anew after an update of one entry. -/
theorem count_update {entry : Option (List Scalar)} (u : w.Update i h entry w')
    (owns : w.Owns held)
    (hcount : ∀ n : Nat, n + (w.contents i h).isSome.toNat =
      (held.countP fun slot => slot.1 == i) + entry.isSome.toNat →
      n = held'.countP fun slot => slot.1 == i)
    (hothers : ∀ j ≠ i, (held'.countP fun slot => slot.1 == j) = held.countP fun slot => slot.1 == j) :
    ∀ j p, w'.pool? j = some p → p.live = held'.countP fun slot => slot.1 == j := by
  intro j q hq
  by_cases hj : j = i
  · subst hj
    obtain ⟨p, p', hp, hp', u'⟩ := u.pool?_self
    rw [hp'] at hq
    cases hq
    refine hcount _ ?_
    rw [contents_of_pool hp, u'.live_add, owns.count j p hp]
  · rw [u.pool?_of_ne hj] at hq
    rw [hothers j hj, owns.count j q hq]

/-- A new slot is held beside the ones that were. -/
theorem take (owns : w.Owns held) (hnone : w.contents i h = none)
    (u : w.Update i h (some values) w') : w'.Owns ((i, h) :: held) := by
  refine ⟨?_, ?_, owns.count_update u (fun n hn => ?_) fun j hj => ?_⟩
  · intro slot hslot
    rcases List.mem_cons.mp hslot with rfl | hold
    · rw [u.contents_self]
      rfl
    · rw [u.contents_of_ne (owns.ne_of_contents hold hnone)]
      exact owns.live slot hold
  · refine List.nodup_cons.mpr ⟨fun hmem => ?_, owns.nodup⟩
    exact owns.ne_of_contents hmem hnone ⟨rfl, rfl⟩
  · rw [hnone] at hn
    simpa using hn
  · simp [Ne.symm hj]

/-- A slot given back is held no more. -/
theorem release (owns : w.Owns ((i, h) :: held)) (u : w.Update i h none w') : w'.Owns held := by
  obtain ⟨hout, hnodup⟩ := List.nodup_cons.mp owns.nodup
  have hlive := owns.live (i, h) List.mem_cons_self
  refine ⟨?_, hnodup, owns.count_update u (fun n hn => ?_) fun j hj => ?_⟩
  · intro slot hslot
    have hne : ¬ (slot.1 = i ∧ slot.2 = h) := by
      rintro ⟨rfl, rfl⟩
      exact hout hslot
    rw [u.contents_of_ne hne]
    exact owns.live slot (List.mem_cons_of_mem _ hslot)
  · simp only at hlive
    rw [hlive] at hn
    simpa using hn
  · simp [Ne.symm hj]

/-- Writing values changes nothing about who holds what. -/
theorem write (owns : w.Owns held) (hsome : (w.contents i h).isSome)
    (u : w.Update i h (some values) w') : w'.Owns held := by
  refine ⟨?_, owns.nodup, owns.count_update u (fun n hn => ?_) fun j hj => rfl⟩
  · intro slot hslot
    by_cases heq : slot.1 = i ∧ slot.2 = h
    · rw [heq.1, heq.2, u.contents_self]
      rfl
    · rw [u.contents_of_ne heq]
      exact owns.live slot hslot
  · rw [hsome] at hn
    simpa using hn

end Owns

/-! ## Trades -/

namespace Trade

/-- Whatever is traded, pools only evolve. -/
theorem evolves (t : Trade w held w' held') : w.Evolves w' := by
  induction t with
  | refl w held => exact .refl w
  | trans _ _ ih ih' => exact ih.trans ih'
  | perm w hperm => exact .refl w
  | note w held he => exact .of_pools rfl rfl
  | write hmem hsome u => exact u.evolves
  | take hnone u => exact u.evolves
  | release hsome u => exact u.evolves
  | forget hnone => exact .of_pools rfl rfl

/-- Who holds other slots may look on. -/
theorem append (t : Trade w held w' held') (rest : List HeldSlot) :
    Trade w (held ++ rest) w' (held' ++ rest) := by
  induction t with
  | refl w held => exact .refl w _
  | trans _ _ ih ih' => exact ih.trans ih'
  | perm w hperm => exact .perm w (hperm.append_right rest)
  | note w held he => exact .note w _ he
  | write hmem hsome u => exact .write (List.mem_append_left _ hmem) hsome u
  | take hnone u => exact .take hnone u
  | release hsome u => exact .release hsome u
  | forget hnone => exact .forget hnone

/-- **The frame rule.** A trade of owned slots leaves all other slots owned, showing the
values they showed, and nothing is warned of. -/
theorem owns (t : Trade w held w' held') (owned : w.Owns (held ++ rest)) :
    w'.Owns (held' ++ rest) ∧
      (∀ slot ∈ rest, w'.contents slot.1 slot.2 = w.contents slot.1 slot.2) ∧
      ∀ e ∈ w'.events, e ∈ w.events ∨ e.level ≠ .warn := by
  induction t with
  | refl w held => exact ⟨owned, fun _ _ => rfl, fun _ he => .inl he⟩
  | trans _ _ ih ih' =>
    obtain ⟨owned', hframe, hquiet⟩ := ih owned
    obtain ⟨owned'', hframe', hquiet'⟩ := ih' owned'
    refine ⟨owned'', fun slot hslot => (hframe' slot hslot).trans (hframe slot hslot), ?_⟩
    intro e he
    rcases hquiet' e he with hmid | hlevel
    · exact hquiet e hmid
    · exact .inr hlevel
  | perm w hperm =>
    exact ⟨owned.perm (hperm.append_right rest), fun _ _ => rfl, fun _ he => .inl he⟩
  | note w held hlevel =>
    refine ⟨owned.of_pools rfl, fun _ _ => rfl, fun e he => ?_⟩
    rcases List.mem_append.mp he with hold | hnew
    · exact .inl hold
    · rw [List.mem_singleton.mp hnew]
      exact .inr hlevel
  | write hmem hsome u =>
    refine ⟨owned.write hsome u, fun slot hslot => ?_, u.quiet⟩
    obtain ⟨-, -, hdisjoint⟩ := List.nodup_append.mp owned.nodup
    refine u.contents_of_ne ?_
    rintro ⟨rfl, rfl⟩
    exact hdisjoint _ hmem _ hslot rfl
  | take hnone u =>
    refine ⟨owned.take hnone u, fun slot hslot => ?_, u.quiet⟩
    exact u.contents_of_ne (owned.ne_of_contents (List.mem_append_right _ hslot) hnone)
  | release hsome u =>
    refine ⟨owned.release u, fun slot hslot => ?_, u.quiet⟩
    obtain ⟨hout, -⟩ := List.nodup_cons.mp owned.nodup
    refine u.contents_of_ne ?_
    rintro ⟨rfl, rfl⟩
    exact hout (List.mem_append_right _ hslot)
  | forget hnone =>
    -- a slot that is owned is live, so it is never forgotten
    exact absurd ⟨rfl, rfl⟩ (owned.ne_of_contents List.mem_cons_self hnone)

end Trade

end ParticleStore.World
