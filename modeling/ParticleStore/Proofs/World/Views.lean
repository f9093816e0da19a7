/-
ParticleStore.Proofs.World.Views — the views that are open on pools.

`Viewed w views` says that `views` are the open views of a world: each one is a window on
a slot of its pool, the pools count them by kind, and beside a write view no other one is
open. So a pool that counts no views has none, no slot of it is lent to a write view
(`Viewed.lent_eq_false`), and the one write view of a pool is all there is
(`Viewed.alone`). What a view shows is never touched while pools only evolve.
-/
import ParticleStore.Proofs.World.Ownership

namespace ParticleStore

/-- An open view: the position of its pool, and the window. -/
abbrev OpenView : Type := Nat × View

namespace World

variable {w w' : World} {i : Nat} {p p' : Pool} {h : Handle} {v u : OpenView}
  {views views' : List OpenView}

/-- A write view of the slot is open. -/
def lent (views : List OpenView) (slot : HeldSlot) : Bool :=
  views.any fun v => v.2.writable && (v.1 == slot.1 && v.2.position == slot.2.index.toNat)

theorem lent_perm (hperm : views.Perm views') (slot : HeldSlot) :
    lent views slot = lent views' slot := by
  rw [Bool.eq_iff_iff, lent, lent, List.any_eq_true, List.any_eq_true]
  simp only [hperm.mem_iff]

/-- The values that a view shows. -/
def seen (w : World) (v : OpenView) : List Scalar :=
  ((w.pool? v.1).map fun p => p.block v.2.position).getD []

theorem seen_of_pool (hp : w.pool? v.1 = some p) : w.seen v = p.block v.2.position := by
  rw [seen, hp]
  rfl

/-- These are the open views of the world. -/
structure Viewed (w : World) (views : List OpenView) : Prop where
  shown : ∀ v ∈ views, ∃ p, w.pool? v.1 = some p ∧ v.2.position < p.totalSlots
  readers_eq : ∀ i p, w.pool? i = some p →
    p.readers = views.countP fun v => v.1 == i && !v.2.writable
  writers_eq : ∀ i p, w.pool? i = some p →
    p.writers = views.countP fun v => v.1 == i && v.2.writable
  exclusive : ∀ i p, w.pool? i = some p → p.writers = 0 ∨ (p.writers = 1 ∧ p.readers = 0)

namespace Viewed

theorem empty : Viewed {} [] := by
  refine ⟨?_, ?_, ?_, ?_⟩ <;> simp [pool?]

theorem perm (vw : w.Viewed views) (hperm : views.Perm views') : w.Viewed views' where
  shown v hv := vw.shown v (hperm.mem_iff.mpr hv)
  readers_eq i p hp := by rw [vw.readers_eq i p hp, hperm.countP_eq]
  writers_eq i p hp := by rw [vw.writers_eq i p hp, hperm.countP_eq]
  exclusive := vw.exclusive

/-- Views stay open while pools keep count of them and no table shrinks. -/
theorem mono (vw : w.Viewed views) (hlength : w'.pools.length = w.pools.length)
    (hpool : ∀ i p, w.pool? i = some p → ∃ p', w'.pool? i = some p' ∧ p'.readers = p.readers ∧
      p'.writers = p.writers ∧ p.totalSlots ≤ p'.totalSlots) : w'.Viewed views := by
  have hback : ∀ i p', w'.pool? i = some p' → ∃ p, w.pool? i = some p ∧
      p'.readers = p.readers ∧ p'.writers = p.writers := by
    intro i p' hp'
    obtain ⟨p, hp⟩ := exists_pool? hlength hp'
    obtain ⟨q, hq, hreaders, hwriters, -⟩ := hpool i p hp
    rw [hp'] at hq
    cases hq
    exact ⟨p, hp, hreaders, hwriters⟩
  refine ⟨fun v hv => ?_, fun i p' hp' => ?_, fun i p' hp' => ?_, fun i p' hp' => ?_⟩
  · obtain ⟨p, hp, hlt⟩ := vw.shown v hv
    obtain ⟨p', hp', -, -, hle⟩ := hpool v.1 p hp
    exact ⟨p', hp', Nat.lt_of_lt_of_le hlt hle⟩
  · obtain ⟨p, hp, hreaders, -⟩ := hback i p' hp'
    rw [hreaders, vw.readers_eq i p hp]
  · obtain ⟨p, hp, -, hwriters⟩ := hback i p' hp'
    rw [hwriters, vw.writers_eq i p hp]
  · obtain ⟨p, hp, hreaders, hwriters⟩ := hback i p' hp'
    rw [hreaders, hwriters]
    exact vw.exclusive i p hp

theorem of_pools (vw : w.Viewed views) (hpools : w'.pools = w.pools) : w'.Viewed views := by
  refine vw.mono (by rw [hpools]) fun i p hp => ⟨p, ?_, rfl, rfl, Nat.le_refl _⟩
  rw [pool?, hpools]
  exact hp

theorem evolves (vw : w.Viewed views) (e : w.Evolves w') : w'.Viewed views := by
  refine vw.mono e.length_eq fun i p hp => ?_
  obtain ⟨p', hp', -, -, hreaders, hwriters, hle, -⟩ := e.pool i p hp
  exact ⟨p', hp', hreaders, hwriters, hle⟩

/-- One pool changes, and keeps count of its views. -/
theorem setPool (vw : w.Viewed views) (hp : w.pool? i = some p) (hreaders : p'.readers = p.readers)
    (hwriters : p'.writers = p.writers) (hle : p.totalSlots ≤ p'.totalSlots) :
    (w.setPool i p').Viewed views := by
  refine vw.mono List.length_set fun j q hq => ?_
  by_cases hj : j = i
  · subst hj
    rw [hp] at hq
    cases hq
    exact ⟨p', pool?_setPool_self (by simp [hp]), hreaders, hwriters, hle⟩
  · exact ⟨q, (pool?_setPool_of_ne hj).trans hq, rfl, rfl, Nat.le_refl _⟩

/-- A new pool has no views. -/
theorem addPool (vw : w.Viewed views) (hpools : w'.pools = w.pools ++ [p])
    (hreaders : p.readers = 0) (hwriters : p.writers = 0) : w'.Viewed views := by
  have hlt : ∀ v ∈ views, v.1 ≠ w.pools.length := by
    intro v hv
    obtain ⟨q, hq, -⟩ := vw.shown v hv
    exact Nat.ne_of_lt (lt_of_pool? hq)
  have hnone : ∀ f : OpenView → Bool,
      (views.countP fun v => v.1 == w.pools.length && f v) = 0 := by
    intro f
    rw [List.countP_eq_zero]
    intro v hv
    simp [hlt v hv]
  refine ⟨fun v hv => ?_, fun i q hq => ?_, fun i q hq => ?_, fun i q hq => ?_⟩
  · obtain ⟨q, hq, hq'⟩ := vw.shown v hv
    refine ⟨q, ?_, hq'⟩
    rw [pool?_append hpools, if_neg (hlt v hv)]
    exact hq
  · rw [pool?_append hpools] at hq
    split at hq
    · rename_i hi
      cases hq
      rw [hi, hnone, hreaders]
    · exact vw.readers_eq i q hq
  · rw [pool?_append hpools] at hq
    split at hq
    · rename_i hi
      cases hq
      rw [hi, hnone, hwriters]
    · exact vw.writers_eq i q hq
  · rw [pool?_append hpools] at hq
    split at hq
    · cases hq
      exact .inl hwriters
    · exact vw.exclusive i q hq

/-- A pool with an open view counts one. -/
theorem isViewed (vw : w.Viewed views) (hv : v ∈ views) (hp : w.pool? v.1 = some p) :
    p.isViewed = true := by
  unfold Pool.isViewed
  rw [vw.readers_eq _ p hp, vw.writers_eq _ p hp, decide_eq_true_eq]
  cases hwritable : v.2.writable with
  | true => exact Nat.add_pos_right _ (List.countP_pos_iff.mpr ⟨v, hv, by simp [hwritable]⟩)
  | false => exact Nat.add_pos_left (List.countP_pos_iff.mpr ⟨v, hv, by simp [hwritable]⟩) _

/-- No slot is lent in a pool that counts no views. -/
theorem lent_eq_false (vw : w.Viewed views) (hp : w.pool? i = some p)
    (hunviewed : p.isViewed = false) : lent views (i, h) = false := by
  rw [lent, List.any_eq_false]
  intro v hv hlent
  have hi : v.1 = i := by
    simp only [Bool.and_eq_true, beq_iff_eq] at hlent
    exact hlent.2.1
  have hopen := vw.isViewed hv (hi ▸ hp)
  rw [hunviewed] at hopen
  cases hopen

/-- No slot is lent in a pool that counts no write view. -/
theorem lent_eq_false_of_writers (vw : w.Viewed views) (hp : w.pool? i = some p)
    (hwriters : p.writers = 0) : lent views (i, h) = false := by
  rw [vw.writers_eq i p hp, List.countP_eq_zero] at hwriters
  rw [lent, List.any_eq_false]
  intro v hv hlent
  simp only [Bool.and_eq_true, beq_iff_eq] at hlent
  exact hwriters v hv (by simp [hlent.2.1, hlent.1])

/-- What a view shows stays while pools only evolve. -/
theorem seen_eq (vw : w.Viewed views) (e : w.Evolves w') (hv : v ∈ views) :
    w'.seen v = w.seen v := by
  obtain ⟨p, hp, -⟩ := vw.shown v hv
  obtain ⟨p', hp', -, hconfig, -, -, -, hscalars⟩ := e.pool v.1 p hp
  rw [seen_of_pool hp, seen_of_pool hp', Pool.block, Pool.block, Pool.stride, Pool.stride,
    hconfig, hscalars (vw.isViewed hv hp)]

/-! ## Opening and closing -/

/-- Views are opened and closed on one pool, which keeps count of them. -/
theorem recounted (vw : w.Viewed views) (hp : w.pool? i = some p)
    (htotal : p'.totalSlots = p.totalSlots)
    (hshown : ∀ v ∈ views', v ∈ views ∨ v.1 = i ∧ v.2.position < p.totalSlots)
    (hothers : ∀ j ≠ i, ∀ f : OpenView → Bool,
      (views'.countP fun v => v.1 == j && f v) = views.countP fun v => v.1 == j && f v)
    (hreaders : p'.readers = views'.countP fun v => v.1 == i && !v.2.writable)
    (hwriters : p'.writers = views'.countP fun v => v.1 == i && v.2.writable)
    (hexclusive : p'.writers = 0 ∨ (p'.writers = 1 ∧ p'.readers = 0)) :
    (w.setPool i p').Viewed views' := by
  have hself : (w.setPool i p').pool? i = some p' := pool?_setPool_self (by simp [hp])
  have hpool : ∀ j q, (w.setPool i p').pool? j = some q →
      j = i ∧ q = p' ∨ j ≠ i ∧ w.pool? j = some q := by
    intro j q hq
    by_cases hj : j = i
    · rw [hj, hself] at hq
      exact .inl ⟨hj, (Option.some.inj hq).symm⟩
    · rw [pool?_setPool_of_ne hj] at hq
      exact .inr ⟨hj, hq⟩
  refine ⟨fun v hv => ?_, fun j q hq => ?_, fun j q hq => ?_, fun j q hq => ?_⟩
  · by_cases hj : v.1 = i
    · refine ⟨p', hj ▸ hself, ?_⟩
      rw [htotal]
      rcases hshown v hv with hold | ⟨-, hlt⟩
      · obtain ⟨q, hq, hlt⟩ := vw.shown v hold
        rw [hj, hp] at hq
        cases hq
        exact hlt
      · exact hlt
    · rw [pool?_setPool_of_ne hj]
      rcases hshown v hv with hold | ⟨hi, -⟩
      · exact vw.shown v hold
      · exact absurd hi hj
  · rcases hpool j q hq with ⟨rfl, rfl⟩ | ⟨hj, hq⟩
    · exact hreaders
    · rw [hothers j hj]
      exact vw.readers_eq j q hq
  · rcases hpool j q hq with ⟨rfl, rfl⟩ | ⟨hj, hq⟩
    · exact hwriters
    · rw [hothers j hj]
      exact vw.writers_eq j q hq
  · rcases hpool j q hq with ⟨rfl, rfl⟩ | ⟨-, hq⟩
    · exact hexclusive
    · exact vw.exclusive j q hq

/-- Views on other pools do not count. -/
theorem countP_cons_of_ne {j : Nat} (hne : v.1 ≠ j) (f : OpenView → Bool) :
    ((v :: views).countP fun u => u.1 == j && f u) = views.countP fun u => u.1 == j && f u := by
  rw [List.countP_cons]
  simp [hne]

/-- A view is opened where none stands in its way. -/
theorem opened {writable : Bool} {position : Nat} (vw : w.Viewed views)
    (hp : w.pool? i = some p) (hlt : position < p.totalSlots)
    (hfree : (if writable then p.viewed? else p.written?) = none) :
    (w.setPool i (p.viewOpened writable)).Viewed ((i, ⟨position, writable⟩) :: views) := by
  refine vw.recounted hp ?_ (fun v hv => ?_) (fun j hj => ?_) ?_ ?_ ?_
  · cases writable <;> rfl
  · rcases List.mem_cons.mp hv with rfl | hold
    · exact .inr ⟨rfl, hlt⟩
    · exact .inl hold
  · exact countP_cons_of_ne (Ne.symm hj)
  · rw [List.countP_cons, ← vw.readers_eq i p hp]
    cases writable <;> simp [Pool.viewOpened]
  · rw [List.countP_cons, ← vw.writers_eq i p hp]
    cases writable <;> simp [Pool.viewOpened]
  · cases writable with
    | true =>
      simp only [if_true, Pool.viewed?_eq_none_iff, Pool.isViewed, decide_eq_false_iff_not] at hfree
      simp only [Pool.viewOpened, if_true]
      omega
    | false =>
      simp only [Bool.false_eq_true, if_false, Pool.written?_eq_none_iff] at hfree
      exact .inl hfree

/-- Beside a write view no other one is open on its pool. -/
theorem alone (vw : w.Viewed (v :: views)) (hwritable : v.2.writable = true) (hu : u ∈ views) :
    u.1 ≠ v.1 := by
  intro he
  obtain ⟨p, hp, -⟩ := vw.shown v List.mem_cons_self
  have hreaders := vw.readers_eq v.1 p hp
  have hwriters := vw.writers_eq v.1 p hp
  have hexclusive := vw.exclusive v.1 p hp
  rw [List.countP_cons] at hreaders hwriters
  simp only [hwritable, beq_self_eq_true, Bool.and_self, if_true] at hwriters
  cases hkind : u.2.writable with
  | true =>
    have hpos : 0 < views.countP fun x => x.1 == v.1 && x.2.writable :=
      List.countP_pos_iff.mpr ⟨u, hu, by simp [he, hkind]⟩
    omega
  | false =>
    have hpos : 0 < views.countP fun x => x.1 == v.1 && !x.2.writable :=
      List.countP_pos_iff.mpr ⟨u, hu, by simp [he, hkind]⟩
    omega

/-- No slot of the pool is lent to another view. -/
theorem lent_beside (vw : w.Viewed (v :: views)) (hwritable : v.2.writable = true) :
    lent views (v.1, h) = false := by
  rw [lent, List.any_eq_false]
  intro u hu
  simp [vw.alone hwritable hu]

theorem closed (vw : w.Viewed (v :: views)) (hp : w.pool? v.1 = some p) :
    (w.setPool v.1 (p.closeView v.2)).Viewed views := by
  have hreaders := vw.readers_eq v.1 p hp
  have hwriters := vw.writers_eq v.1 p hp
  rw [List.countP_cons] at hreaders hwriters
  refine vw.recounted hp ?_ (fun u hu => .inl (List.mem_cons_of_mem _ hu)) (fun j hj f => ?_) ?_ ?_ ?_
  · unfold Pool.closeView
    split <;> rfl
  · exact (countP_cons_of_ne (Ne.symm hj) f).symm
  · cases hkind : v.2.writable <;> simp [hkind] at hreaders <;> simp [Pool.closeView, hkind, hreaders]
  · cases hkind : v.2.writable <;> simp [hkind] at hwriters <;> simp [Pool.closeView, hkind, hwriters]
  · have hexclusive := vw.exclusive v.1 p hp
    unfold Pool.closeView
    split
    · simp only
      omega
    · simp only
      omega

end Viewed

end World

end ParticleStore
