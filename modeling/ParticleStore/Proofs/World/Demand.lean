/-
ParticleStore.Proofs.World.Demand — how large the tables of slots get.

A table never shrinks, and it grows by a slot only when all of its slots are live: a slot
that was released is used again first. So the size of a table tells how many slots of its
pool were ever live at once, no fewer and no more (`tableSize_callAll`). `stages` lists the
worlds that calls lead through, one for every single allocation and release, so slots that
an operation takes and gives back within itself count as well: values that move to another
slot of the same pool need two slots for a while.

One case for each effect of a call (`Effect.tableSize_eq`), and then one call after the other.
-/
import ParticleStore.Proofs.Session.Calls
import ParticleStore.Proofs.World.Effects
import ParticleStore.Proofs.World.Filling

namespace ParticleStore

namespace Pool

variable {p : Pool}

/-- A table grows by the slot that is taken, while all of its slots are live. -/
theorem full_of_lt_totalSlots_taken (wf : p.WellFormed)
    (hgrown : p.totalSlots < p.taken.totalSlots) :
    p.taken.totalSlots = p.totalSlots + 1 ∧ ∀ slot ∈ p.slots, slot.live = true := by
  rw [totalSlots_taken_eq_max wf] at hgrown ⊢
  have hle := wf.live_le
  have hfull : p.live = p.totalSlots := by omega
  refine ⟨by omega, ?_⟩
  rw [wf.live_eq, totalSlots] at hfull
  exact List.countP_eq_length.mp hfull

end Pool

namespace World

variable {w w' v : World} {quiet : Bool} {events : List SlotEvent} {i j : Nat} {p p' : Pool}
  {calls : List PoolCall}

/-! ## Demand and supply -/

/-- How many slots of the pool at a position are live; none if there is no pool. -/
def demand (w : World) (i : Nat) : Nat := ((w.pool? i).map Pool.live).getD 0

/-- How many slots the table of the pool at a position has; none if there is no pool. -/
def tableSize (w : World) (i : Nat) : Nat := ((w.pool? i).map Pool.totalSlots).getD 0

/-- The worlds that calls lead through, with the first and the last one. -/
def stages (w : World) : List PoolCall → List World
  | [] => [w]
  | c :: rest => w :: (w.call c).2.stages rest

/-- The most slots of the pool at a position that were live at once. -/
def peak (i : Nat) (past : List World) : Nat := (past.map (·.demand i)).foldr max 0

theorem demand_of_pool (hp : w.pool? i = some p) : w.demand i = p.live := by
  rw [demand, hp]
  rfl

theorem tableSize_of_pool (hp : w.pool? i = some p) : w.tableSize i = p.totalSlots := by
  rw [tableSize, hp]
  rfl

theorem demand_of_none (hp : w.pool? i = none) : w.demand i = 0 := by
  rw [demand, hp]
  rfl

theorem tableSize_of_none (hp : w.pool? i = none) : w.tableSize i = 0 := by
  rw [tableSize, hp]
  rfl

@[simp] theorem peak_nil : peak i [] = 0 := rfl

@[simp] theorem peak_cons (past : List World) : peak i (w :: past) = max (w.demand i) (peak i past) :=
  rfl

theorem demand_le_tableSize (wf : w.WellFormed) : w.demand i ≤ w.tableSize i := by
  cases hp : w.pool? i with
  | none =>
    rw [demand_of_none hp]
    exact Nat.zero_le _
  | some p =>
    rw [demand_of_pool hp, tableSize_of_pool hp]
    exact (wf.pool i p hp).live_le

/-- Where nothing changes, the table is still large enough. -/
theorem tableSize_eq_of_pool? (wf : w.WellFormed) (hsame : w'.pool? i = w.pool? i) :
    w'.tableSize i = max (w.tableSize i) (w'.demand i) := by
  have hle := demand_le_tableSize (i := i) wf
  rw [tableSize, demand, hsame, ← demand, ← tableSize]
  omega

/-! ## One call -/

/-- One pool has changed: the others have what they had. -/
theorem tableSize_eq_of_set (wf : w.WellFormed) (hp : w.pool? j = some p)
    (hpools : w'.pools = w.pools.set j p')
    (hsize : p'.totalSlots = max p.totalSlots p'.live) :
    w'.tableSize i = max (w.tableSize i) (w'.demand i) := by
  have hpool := pool?_of_set (j := i) hp hpools
  by_cases hi : i = j
  · rw [if_pos hi] at hpool
    rw [tableSize_of_pool hpool, demand_of_pool hpool, tableSize_of_pool (hi ▸ hp), hsize]
  · rw [if_neg hi] at hpool
    exact tableSize_eq_of_pool? wf hpool

/-- **A call leaves a table as large as it was, or as the slots that are live then need it.** -/
theorem Effect.tableSize_eq (wf : w.WellFormed) (wf' : w'.WellFormed)
    (effect : w.Effect quiet events w') (i : Nat) :
    w'.tableSize i = max (w.tableSize i) (w'.demand i) := by
  cases effect with
  | idle hpools => exact tableSize_eq_of_pool? wf (pool?_of_pools hpools)
  | @made _ p hpools hempty _ _ =>
    have hpool := pool?_append (j := i) hpools
    by_cases hi : i = w.pools.length
    · -- the new pool has no slots, and none can be live
      rw [if_pos hi] at hpool
      have hle := (wf'.pool i p hpool).live_le
      have hnone : p.totalSlots = 0 := by rw [Pool.totalSlots, hempty, List.length_nil]
      have hbefore : w.pool? i = none := List.getElem?_eq_none (Nat.le_of_eq hi.symm)
      rw [tableSize_of_pool hpool, demand_of_pool hpool, tableSize_of_none hbefore]
      omega
    · rw [if_neg hi] at hpool
      exact tableSize_eq_of_pool? wf hpool
  | changed hp hpools same =>
    have wfp := wf.pool _ _ hp
    have hle := wfp.live_le
    refine tableSize_eq_of_set wf hp hpools ?_
    rw [same.live_eq wfp, same.totalSlots_eq]
    omega
  | issued hp hpools _ u hslots =>
    have wfp := wf.pool _ _ hp
    have hlive := u.live_add
    rw [Pool.contents_nextHandle wfp] at hlive
    simp only [Option.isSome_none, Option.isSome_some, Bool.toNat_false, Bool.toNat_true,
      Nat.add_zero] at hlive
    refine tableSize_eq_of_set wf hp hpools ?_
    rw [Pool.totalSlots, hslots, ← Pool.totalSlots, Pool.totalSlots_taken_eq_max wfp, hlive]
  | @released _ _ p h hp hpools _ =>
    have hle := (wf.pool _ _ hp).live_le
    have hfewer : (p.released h).live ≤ p.live := Nat.sub_le _ _
    refine tableSize_eq_of_set wf hp hpools ?_
    rw [Pool.totalSlots_released]
    omega

/-- A pool that has changed is the one that was put in its place. -/
theorem eq_of_set_of_ne {q q' : Pool} (hq : w.pool? j = some q)
    (hpools : w'.pools = w.pools.set j q') (hp : w.pool? i = some p) (hp' : w'.pool? i = some p')
    (hne : p' ≠ p) : j = i ∧ q = p ∧ q' = p' := by
  have hpool := pool?_of_set (j := i) hq hpools
  rw [hp'] at hpool
  by_cases hi : i = j
  · rw [if_pos hi] at hpool
    rw [hi, hq] at hp
    exact ⟨hi.symm, Option.some.inj hp, (Option.some.inj hpool).symm⟩
  · rw [if_neg hi, hp] at hpool
    exact absurd (Option.some.inj hpool) hne

/-- **A table grows only by a slot that is issued, and only while all of its slots are live.** -/
theorem Effect.of_totalSlots_lt (wf : w.WellFormed) (effect : w.Effect quiet events w')
    (hp : w.pool? i = some p) (hp' : w'.pool? i = some p')
    (hgrown : p.totalSlots < p'.totalSlots) :
    p'.totalSlots = p.totalSlots + 1 ∧ (∀ slot ∈ p.slots, slot.live = true) ∧
      ∃ h, events = [.issued i h] := by
  have hne : p' ≠ p := by
    rintro rfl
    exact Nat.lt_irrefl _ hgrown
  cases effect with
  | idle hpools =>
    rw [pool?_of_pools hpools, hp] at hp'
    exact absurd (Option.some.inj hp').symm hne
  | made hpools =>
    rw [pool?_append hpools, if_neg (Nat.ne_of_lt (lt_of_pool? hp)), hp] at hp'
    exact absurd (Option.some.inj hp').symm hne
  | changed hq hpools same =>
    obtain ⟨rfl, rfl, rfl⟩ := eq_of_set_of_ne hq hpools hp hp' hne
    exact absurd hgrown (same.totalSlots_eq ▸ Nat.lt_irrefl _)
  | issued hq hpools _ _ hslots =>
    obtain ⟨rfl, rfl, rfl⟩ := eq_of_set_of_ne hq hpools hp hp' hne
    have hsize := congrArg List.length hslots
    rw [← Pool.totalSlots, ← Pool.totalSlots] at hsize
    rw [hsize] at hgrown ⊢
    obtain ⟨hone, hfull⟩ := Pool.full_of_lt_totalSlots_taken (wf.pool _ _ hp) hgrown
    exact ⟨hone, hfull, _, rfl⟩
  | released hq hpools _ =>
    obtain ⟨rfl, rfl, rfl⟩ := eq_of_set_of_ne hq hpools hp hp' hne
    rw [Pool.totalSlots_released] at hgrown
    exact absurd hgrown (Nat.lt_irrefl _)

/-! ## All calls -/

theorem wellFormed_callAll (wf : w.WellFormed) (calls : List PoolCall) :
    (w.callAll calls).2.WellFormed :=
  @callAll_induction w (fun _ w => w.WellFormed) calls (fun _ _ c _ wf => (effect_call wf c).1) [] wf

theorem stages_append (calls later : List PoolCall) :
    ∀ v ∈ (w.callAll calls).2.stages later, v ∈ w.stages (calls ++ later) := by
  induction calls generalizing w with
  | nil => exact fun v hv => hv
  | cons c rest ih => exact fun v hv => List.mem_cons_of_mem w (ih v hv)

/-- What was gone through on the way to a world that was gone through. -/
theorem mem_stages_append (calls later : List PoolCall) :
    ∀ v ∈ w.stages calls, v ∈ w.stages (calls ++ later) := by
  induction calls generalizing w with
  | nil =>
    intro v hv
    rw [List.mem_singleton.mp hv]
    cases later <;> exact List.mem_cons_self
  | cons c rest ih =>
    intro v hv
    rcases List.mem_cons.mp hv with rfl | hlater
    · exact List.mem_cons_self
    · exact List.mem_cons_of_mem w (ih v hlater)

/-- **The size of a table is the size that it had, or the most slots that were live since.** -/
theorem tableSize_callAll (wf : w.WellFormed) (calls : List PoolCall) (i : Nat) :
    (w.callAll calls).2.tableSize i = max (w.tableSize i) (peak i (w.stages calls)) := by
  induction calls generalizing w with
  | nil =>
    have hle := demand_le_tableSize (i := i) wf
    rw [stages, peak_cons, peak_nil, Nat.max_zero, Nat.max_eq_left hle]
    rfl
  | cons c rest ih =>
    obtain ⟨wf', effect⟩ := effect_call wf c
    have hle := demand_le_tableSize (i := i) wf
    have hfirst : (w.call c).2.demand i ≤ peak i ((w.call c).2.stages rest) := by
      cases rest <;> exact Nat.le_max_left _ _
    rw [callAll_cons, ih wf', effect.tableSize_eq wf wf', stages, peak_cons]
    omega

/-- No table shrinks on the way. -/
theorem tableSize_le_of_mem_stages (wf : w.WellFormed) (hv : v ∈ w.stages calls) (i : Nat) :
    v.tableSize i ≤ (w.callAll calls).2.tableSize i := by
  induction calls generalizing w with
  | nil =>
    rw [List.mem_singleton.mp hv]
    exact Nat.le_refl _
  | cons c rest ih =>
    rcases List.mem_cons.mp hv with rfl | hlater
    · rw [tableSize_callAll wf]
      exact Nat.le_max_left _ _
    · exact ih (effect_call wf c).1 hlater

/-- The tables of the world `w` are as large as the demand for slots has been at its peak, in the
worlds gone through. -/
structure SizedToPeak (past : List World) (w : World) : Prop where
  /-- A table has as many slots as were live at once at most. -/
  totalSlots_eq : ∀ i p, w.pool? i = some p → p.totalSlots = peak i past
  /-- No table was ever larger. -/
  never_shrinks : ∀ v ∈ past, ∀ i, v.tableSize i ≤ w.tableSize i
  /-- No table is larger than the pool's limit. -/
  le_slotLimit : ∀ i p, w.pool? i = some p → p.totalSlots ≤ p.config.slotLimit
  /-- Only a call that issues a slot makes a table larger, and only while no slot is free. -/
  grows : ∀ c i p p', w.pool? i = some p → (w.call c).2.pool? i = some p' →
    p.totalSlots < p'.totalSlots →
      p'.totalSlots = p.totalSlots + 1 ∧ (∀ slot ∈ p.slots, slot.live = true) ∧
        ∃ h, (w.call c).1 = [.issued i h]

theorem sizedToPeak_callAll (calls : List PoolCall) :
    SizedToPeak (({} : World).stages calls) (({} : World).callAll calls).2 := by
  have wf := wellFormed_callAll wellFormed_empty calls
  refine ⟨fun i p hp => ?_, fun v hv => tableSize_le_of_mem_stages wellFormed_empty hv,
    fun i p hp => (wf.pool i p hp).totalSlots_le, fun c i p p' hp hp' => ?_⟩
  · have hnone : ({} : World).tableSize i = 0 := tableSize_of_none rfl
    rw [← tableSize_of_pool hp, tableSize_callAll wellFormed_empty, hnone, Nat.zero_max]
  · obtain ⟨wf', effect⟩ := effect_call wf c
    exact effect.of_totalSlots_lt wf hp hp'

/-! ## Sessions -/

variable {dim spacedim : Nat}

/-- The worlds of a session are worlds that its calls lead through. -/
theorem exists_stages_run (s : Session dim spacedim) (steps : List (Step dim spacedim)) :
    ∃ calls, (s.world.callAll calls).2 = (s.run steps).2.world ∧
      ∀ pre, pre <+: steps → (s.run pre).2.world ∈ s.world.stages calls := by
  induction steps generalizing s with
  | nil =>
    refine ⟨[], rfl, fun pre hpre => ?_⟩
    rw [List.prefix_nil.mp hpre]
    exact List.mem_singleton_self _
  | cons step rest ih =>
    obtain ⟨events, calls, -, hcalls⟩ := (StepM.guided_any step s).leads
    rw [← Session.perform_snd] at hcalls
    have hworld : (s.world.callAll calls).2 = (s.perform step).2.world := by rw [hcalls]
    obtain ⟨later, hlater, hstages⟩ := ih (s.perform step).2
    refine ⟨calls ++ later, ?_, fun pre hpre => ?_⟩
    · rw [callAll_append, hworld]
      exact hlater
    · rcases List.prefix_cons_iff.mp hpre with rfl | ⟨first, rfl, hfirst⟩
      · exact mem_stages_append calls later _ (by cases calls <;> exact List.mem_cons_self)
      · exact stages_append calls later _ (by rw [hworld]; exact hstages first hfirst)

/-- **Every table is just as large as its pool's peak demand**, after every run of calls on any
number of pools, whatever the calls are and whether they fail or not, and so after each single
allocation and release. The steps of a session are such calls, and whatever calls one takes them
for, the sizes are the peaks. -/
theorem sizedToPeak_run (dim spacedim : Nat) :
    (∀ calls : List PoolCall,
      SizedToPeak (({} : World).stages calls) (({} : World).callAll calls).2) ∧
    ∀ steps : List (Step dim spacedim), ∃ calls,
      (({} : World).callAll calls).2 = (Session.run {} steps).2.world ∧
        (∀ pre, pre <+: steps → (Session.run {} pre).2.world ∈ ({} : World).stages calls) ∧
        SizedToPeak (({} : World).stages calls) (Session.run {} steps).2.world := by
  refine ⟨sizedToPeak_callAll, fun steps => ?_⟩
  obtain ⟨calls, hworld, hstages⟩ := exists_stages_run ({} : Session dim spacedim) steps
  refine ⟨calls, hworld, hstages, ?_⟩
  rw [← hworld]
  exact sizedToPeak_callAll calls

/-- One slot is live, and the table has two: values that move within a pool need both. -/
example :
    let steps : List (Step 1 1) := [.makePool { stride := 1 }, .make 0, .moveTo 0 0,
      .setValues 0 [⟨1⟩], .moveTo 0 0]
    (Session.run {} steps).2.poolCounts = [(1, 1, 2)] := by
  decide +kernel

end World

end ParticleStore
