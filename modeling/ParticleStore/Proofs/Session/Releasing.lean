/-
ParticleStore.Proofs.Session.Releasing — slots released in any order.

The stack of released slots remembers the order in which they came, and nothing else in a pool
does. `ReleasedAll` says slot by slot what a row of releases comes to; two rows that release
the same slots therefore end in pools with the same table, the same count and the same scalars,
and differ in the order of their stacks alone (`SameButOrder`).

Nor does the order matter to whoever allocates next. How many slots can be taken, and how far
the table grows for them, depends on the number of live slots and on the table's length
(`refills`). Which slots are issued depends on the stack, but they are fresh either way.
-/
import ParticleStore.Proofs.Session.Sound
import ParticleStore.Proofs.World.Effects
import ParticleStore.Proofs.World.Filling

namespace ParticleStore

/-- The slot once it is released. -/
def Slot.next (slot : Slot) : Slot := ⟨slot.generation + 1, false⟩

namespace Pool

variable {p p' q q' r : Pool} {h k : Handle} {hs hs' issued : List Handle} {n : Nat}

/-- Release the slots that these handles name, one after the other: what is then in the handles'
places, and the pool. -/
def releaseAll : List Handle → Pool → Attempt PoolError (List Handle × Pool)
  | [], p => .ok ([], p)
  | h :: hs, p => do
    let (left, p) ← p.release h
    let (lefts, p) ← releaseAll hs p
    return (left :: lefts, p)

/-- Allocate `n` slots, one after the other: their handles, and the pool. -/
def allocateAll : Nat → Pool → Attempt PoolError (List Handle × Pool)
  | 0, p => .ok ([], p)
  | n + 1, p => do
    let (h, p) ← p.allocate
    let (hs, p) ← allocateAll n p
    return (h :: hs, p)

/-! ## Rows of releases -/

/-- The pool `q` is `p` with the slots of these handles released, in the order of the list. -/
structure ReleasedAll (p : Pool) (hs : List Handle) (q : Pool) : Prop where
  wellFormed : q.WellFormed
  /-- Scalars, views and whatever else there is stay as they are. -/
  eq_with : q = { p with slots := q.slots, free := q.free, live := q.live }
  totalSlots_eq : q.totalSlots = p.totalSlots
  /-- Each slot named is in its next generation and no longer live; no other slot changes. -/
  getElem?_slots : ∀ i : Nat, q.slots[i]? =
    if i ∈ hs.map fun h => h.index.toNat then (p.slots[i]?).map Slot.next else p.slots[i]?
  free_eq : q.free = (hs.map Handle.index).reverse ++ p.free
  live_add : q.live + hs.length = p.live
  isLive_iff : ∀ h, q.isLive h = true ↔ p.isLive h = true ∧ h ∉ hs

theorem releasedAll_nil (wf : p.WellFormed) : p.ReleasedAll [] p where
  wellFormed := wf
  eq_with := rfl
  totalSlots_eq := rfl
  getElem?_slots i := by simp
  free_eq := by simp
  live_add := by simp
  isLive_iff h := by simp

/-- One more release before a row of them, of a slot that the row does not release. -/
theorem ReleasedAll.cons (wf : p.WellFormed) (hlive : (p.contents h).isSome)
    (hout : ∀ k ∈ hs, k.index ≠ h.index) (row : (p.released h).ReleasedAll hs q) :
    p.ReleasedAll (h :: hs) q where
  wellFormed := row.wellFormed
  eq_with := row.eq_with
  totalSlots_eq := row.totalSlots_eq.trans totalSlots_released
  getElem?_slots i := by
    have hslot := ((isSome_contents wf).mp hlive).2
    rw [row.getElem?_slots, getElem?_slots_released hslot]
    by_cases hi : i = h.index.toNat
    · subst hi
      have hrest : h.index.toNat ∉ hs.map fun k => k.index.toNat := by
        rw [List.mem_map]
        rintro ⟨k, hk, hindex⟩
        exact hout k hk (UInt32.toNat_inj.mp hindex)
      unfold LiveAt at hslot
      rw [if_neg hrest, if_pos rfl, if_pos (by simp), hslot]
      rfl
    · simp [hi]
  free_eq := by simp [row.free_eq, released]
  live_add := by
    have hone := (update_released wf hlive).live_add
    have hrest := row.live_add
    simp only [hlive, Option.isSome_none, Bool.toNat_true, Bool.toNat_false] at hone
    simp only [List.length_cons]
    omega
  isLive_iff k := by
    have u := update_released wf hlive
    rw [row.isLive_iff, isLive_eq_isSome, isLive_eq_isSome, List.mem_cons, not_or]
    by_cases hk : k = h
    · simp [hk, u.contents_self]
    · simp [hk, u.contents_of_ne hk]

/-- Slots that are live can be released one after the other, whatever views are open. -/
theorem releaseAll_eq_ok (wf : p.WellFormed) (hlive : ∀ h ∈ hs, p.isLive h = true)
    (hnodup : hs.Nodup) :
    ∃ q, p.releaseAll hs = .ok (List.replicate hs.length .invalid, q) ∧ p.ReleasedAll hs q := by
  induction hs generalizing p with
  | nil => exact ⟨p, rfl, releasedAll_nil wf⟩
  | cons h hs ih =>
    rw [List.nodup_cons] at hnodup
    have hhead : (p.contents h).isSome := by
      rw [← isLive_eq_isSome]
      exact hlive h (by simp)
    have htail : ∀ k ∈ hs, (p.contents k).isSome := by
      intro k hk
      rw [← isLive_eq_isSome]
      exact hlive k (by simp [hk])
    have hne : ∀ k ∈ hs, k ≠ h := fun k hk he => hnodup.1 (he ▸ hk)
    have u := update_released wf hhead
    obtain ⟨q, hrest, row⟩ := ih u.wellFormed (by
      intro k hk
      rw [isLive_eq_isSome, u.contents_of_ne (hne k hk)]
      exact htail k hk) hnodup.2
    have hrelease : p.release h = .ok (.invalid, p.released h) := by
      rw [release_eq wf, flawed?_eq_none_iff_contents.mpr hhead]
      rfl
    refine ⟨q, ?_, .cons wf hhead (fun k hk hindex => ?_) row⟩
    · simp [releaseAll, hrelease, hrest, bind, Except.bind, pure, Except.pure,
        List.replicate_succ]
    · exact hne k hk (eq_of_index_eq wf (htail k hk) hhead hindex)

/-- The pools agree in everything but the order in which released slots are used again: in the
table with its live flags and generations, in the count of live slots, in the scalars, and in
which slots were released. -/
structure SameButOrder (q q' : Pool) : Prop where
  eq_with : q' = { q with free := q'.free }
  free_perm : q'.free.Perm q.free

/-- The order of a row of releases shows in the stack only. -/
theorem ReleasedAll.sameButOrder (row : p.ReleasedAll hs q) (row' : p.ReleasedAll hs' q')
    (hperm : hs'.Perm hs) : q.SameButOrder q' := by
  have hslots : q'.slots = q.slots := by
    apply List.ext_getElem?
    intro i
    simp only [row.getElem?_slots, row'.getElem?_slots, (hperm.map _).mem_iff]
  have hlive : q'.live = q.live := by
    have hadd := row.live_add
    have hadd' := row'.live_add
    rw [hperm.length_eq] at hadd'
    omega
  constructor
  · rw [row'.eq_with, row.eq_with, hslots, hlive]
  · rw [row.free_eq, row'.free_eq]
    refine List.Perm.append_right _ ?_
    exact ((List.reverse_perm _).trans (hperm.map _)).trans (List.reverse_perm _).symm

/-! ## Rows of allocations -/

/-- These handles are issued by `n` allocations in a row, which end in the pool `r'`. -/
structure IssuedAll (r : Pool) (n : Nat) (issued : List Handle) (r' : Pool) : Prop where
  length_eq : issued.length = n
  nodup : issued.Nodup
  /-- They differ from every handle that was live. -/
  fresh : ∀ h ∈ issued, r.isLive h = false
  isLive_iff : ∀ h, r'.isLive h = true ↔ r.isLive h = true ∨ h ∈ issued
  /-- The table grows by what it lacks. -/
  totalSlots_eq : r'.totalSlots = r.totalSlots + (r.live + n - r.totalSlots)

/-- What `n` allocations in a row come to. -/
structure Refills (r : Pool) (n : Nat) : Prop where
  /-- They all succeed just if the limit allows for as many live slots. -/
  ok_iff : (∃ issued r', r.allocateAll n = .ok (issued, r')) ↔ r.live + n ≤ r.config.slotLimit
  issued : ∀ issued r', r.allocateAll n = .ok (issued, r') → r.IssuedAll n issued r'

/-- One allocation, and then a row of them. -/
theorem allocateAll_succ_eq_ok_iff (wf : p.WellFormed) (hview : p.isViewed = false) :
    p.allocateAll (n + 1) = .ok (issued, p') ↔ p.live < p.config.slotLimit ∧
      ∃ rest, issued = p.nextHandle :: rest ∧ p.taken.allocateAll n = .ok (rest, p') := by
  rw [allocateAll, allocate_eq wf, viewed?_eq_none_iff.mpr hview, ← full?_eq_none_iff]
  cases hfull : p.full? with
  | some cause => simp [Attempt.refuse, bind, Except.bind]
  | none =>
    cases hrest : p.taken.allocateAll n with
    | error failure => simp [hrest, bind, Except.bind]
    | ok result =>
      obtain ⟨rest, q⟩ := result
      simp [hrest, bind, Except.bind, pure, Except.pure, eq_comm]

/-- The slots that there is still room for can be taken, while no view is open. -/
theorem exists_allocateAll_iff (wf : p.WellFormed) (hview : p.isViewed = false) :
    (∃ issued p', p.allocateAll n = .ok (issued, p')) ↔ p.live + n ≤ p.config.slotLimit := by
  induction n generalizing p with
  | zero =>
    have hle := wf.live_le_slotLimit
    simpa [allocateAll] using hle
  | succ n ih =>
    simp only [allocateAll_succ_eq_ok_iff wf hview]
    by_cases hroom : p.live < p.config.slotLimit
    · have hrest := ih (wellFormed_taken wf hroom) (by simp [hview])
      rw [taken_live, taken_config] at hrest
      constructor
      · rintro ⟨-, p', -, rest, -, heq⟩
        have hle := hrest.mp ⟨rest, p', heq⟩
        omega
      · intro hle
        obtain ⟨rest, p', heq⟩ := hrest.mpr (by omega)
        exact ⟨_, p', hroom, rest, rfl, heq⟩
    · constructor
      · rintro ⟨-, -, hlt, -⟩
        exact absurd hlt hroom
      · omega

/-- Every handle that a row of allocations issues is a new one. -/
theorem issuedAll_of_eq_ok (wf : p.WellFormed) (hview : p.isViewed = false)
    (hok : p.allocateAll n = .ok (issued, p')) : p.IssuedAll n issued p' := by
  induction n generalizing p issued with
  | zero =>
    cases hok
    have hle := wf.live_le
    exact ⟨rfl, List.nodup_nil, by simp, by simp, by omega⟩
  | succ n ih =>
    obtain ⟨hroom, rest, rfl, hrest⟩ := (allocateAll_succ_eq_ok_iff wf hview).mp hok
    have u := update_taken wf hview hroom
    have row := ih u.wellFormed (by simp [hview]) hrest
    -- after the first allocation its handle is live as well, and no other
    have hfirst (k : Handle) : p.taken.isLive k = true ↔ k = p.nextHandle ∨ p.isLive k = true := by
      rw [isLive_eq_isSome, isLive_eq_isSome]
      by_cases hk : k = p.nextHandle
      · simp [hk, u.contents_self]
      · simp [hk, u.contents_of_ne hk]
    have hold (k : Handle) (hk : k ∈ rest) : k ≠ p.nextHandle ∧ p.isLive k = false := by
      have hfresh := row.fresh k hk
      rw [← Bool.not_eq_true, hfirst, not_or, Bool.not_eq_true] at hfresh
      exact hfresh
    constructor
    · simp [row.length_eq]
    · rw [List.nodup_cons]
      exact ⟨fun hmem => (hold _ hmem).1 rfl, row.nodup⟩
    · intro k hk
      rw [List.mem_cons] at hk
      cases hk with
      | inl he => rw [he, isLive_eq_isSome, contents_nextHandle wf]; rfl
      | inr hmem => exact (hold k hmem).2
    · intro k
      rw [row.isLive_iff, hfirst, List.mem_cons]
      tauto
    · have hlength := row.totalSlots_eq
      rw [totalSlots_taken_eq_max wf, taken_live] at hlength
      omega

theorem refills (wf : p.WellFormed) (hview : p.isViewed = false) (n : Nat) : p.Refills n where
  ok_iff := exists_allocateAll_iff wf hview
  issued _ _ := issuedAll_of_eq_ok wf hview

/-! ## Releasing in any order -/

theorem SameTable.isLive_eq (same : p.SameTable p') : p'.isLive h = p.isLive h := by
  rw [isLive, locate, same.id_eq, same.slots_eq, isLive, locate]

/-- In the pool `r` the slots of these handles of `p` are released, and any number of further
allocations can be told in advance. -/
structure Cleared (p : Pool) (hs : List Handle) (r : Pool) : Prop where
  config_eq : r.config = p.config
  totalSlots_eq : r.totalSlots = p.totalSlots
  live_add : r.live + hs.length = p.live
  isLive_iff : ∀ h, r.isLive h = true ↔ p.isLive h = true ∧ h ∉ hs
  refills : ∀ n, r.Refills n

/-- Only the table counts for what can be allocated, once no view is open. -/
theorem ReleasedAll.cleared (row : p.ReleasedAll hs q) (same : q.SameTable r)
    (hview : r.isViewed = false) : p.Cleared hs r where
  config_eq := by rw [same.config_eq, row.eq_with]
  totalSlots_eq := same.totalSlots_eq.trans row.totalSlots_eq
  live_add := by rw [same.live_eq row.wellFormed, row.live_add]
  isLive_iff h := by rw [same.isLive_eq, row.isLive_iff]
  refills := Pool.refills same.wellFormed hview

theorem Cleared.perm (cleared : p.Cleared hs' r) (hperm : hs'.Perm hs) : p.Cleared hs r where
  config_eq := cleared.config_eq
  totalSlots_eq := cleared.totalSlots_eq
  live_add := by rw [← hperm.length_eq, cleared.live_add]
  isLive_iff h := by rw [cleared.isLive_iff, hperm.mem_iff]
  refills := cleared.refills

/-- Released in the order of `hs`, the slots leave `q` behind, and in that of `hs'` they leave
`q'`. -/
structure ReleasedEither (p : Pool) (hs hs' : List Handle) (q q' : Pool) : Prop where
  /-- No release is refused, and every handle is the invalid one afterwards. -/
  first : p.releaseAll hs = .ok (List.replicate hs.length .invalid, q)
  second : p.releaseAll hs' = .ok (List.replicate hs.length .invalid, q')
  releasedAll : p.ReleasedAll hs q ∧ p.ReleasedAll hs' q'
  sameButOrder : q.SameButOrder q'
  /-- Once no view is open the pool `r`, which still has the table and the stack of one of the
  two, has lost these slots and can be filled again; scalars may have been written meanwhile. -/
  cleared : ∀ r, q.SameTable r ∨ q'.SameTable r → r.isViewed = false → p.Cleared hs r

theorem exists_releasedEither (wf : p.WellFormed) (hlive : ∀ h ∈ hs, p.isLive h = true)
    (hnodup : hs.Nodup) (hperm : hs'.Perm hs) : ∃ q q', p.ReleasedEither hs hs' q q' := by
  obtain ⟨q, hfirst, row⟩ := releaseAll_eq_ok wf hlive hnodup
  have hlive' : ∀ h ∈ hs', p.isLive h = true := fun h hmem => hlive h (hperm.mem_iff.mp hmem)
  obtain ⟨q', hsecond, row'⟩ := releaseAll_eq_ok wf hlive' (hperm.nodup_iff.mpr hnodup)
  rw [hperm.length_eq] at hsecond
  refine ⟨q, q', hfirst, hsecond, ⟨row, row'⟩, row.sameButOrder row' hperm, ?_⟩
  intro r hsame hview
  cases hsame with
  | inl same => exact row.cleared same hview
  | inr same => exact (row'.cleared same hview).perm hperm

end Pool

namespace Session

variable {dim spacedim : Nat}

/-- **Live slots can be released in any order**, in every pool of every session and whatever
views are open. The two orders leave the same pool behind but for the order of its stack, and
once no view is open the same numbers of further allocations succeed. -/
theorem releasedEither_run (steps : List (Step dim spacedim)) (i : Nat) (p : Pool)
    (hp : (run ({} : Session dim spacedim) steps).2.world.pool? i = some p)
    (hs hs' : List Handle) (hlive : ∀ h ∈ hs, p.isLive h = true) (hnodup : hs.Nodup)
    (hperm : hs'.Perm hs) : ∃ q q', p.ReleasedEither hs hs' q q' :=
  Pool.exists_releasedEither ((sound_reached steps).wellFormed.pool i p hp) hlive hnodup hperm

/-- Three of four slots are released while a view of one of them is open, and the view is closed
after that. The slot released last is the first to be used again, so the stacks differ. -/
theorem releasedEither_run_of_viewed :
    let steps : List (Step 1 1) :=
      [.makePool { stride := 1, maxSlots := some 5 }, .allocate 0 0, .allocate 0 1, .allocate 0 2,
        .allocate 0 3, .openView 0 0 (.kept 1) false]
    let hs : List Handle := [⟨⟨1⟩, 0, 0⟩, ⟨⟨1⟩, 2, 0⟩, ⟨⟨1⟩, 1, 0⟩]
    let hs' : List Handle := [⟨⟨1⟩, 1, 0⟩, ⟨⟨1⟩, 0, 0⟩, ⟨⟨1⟩, 2, 0⟩]
    ∃ p q q', (run ({} : Session 1 1) steps).2.world.pool? 0 = some p ∧ p.isViewed = true ∧
      (∀ h ∈ hs, p.isLive h = true) ∧ hs.Nodup ∧ hs'.Perm hs ∧ p.ReleasedEither hs hs' q q' ∧
      q.free = [1, 2, 0] ∧ q'.free = [2, 0, 1] ∧ p.Cleared hs (q.closeView ⟨1, false⟩) := by
  intro steps hs hs'
  have hlive : ∀ h ∈ hs, ((run ({} : Session 1 1) steps).2.world.pool? 0).get!.isLive h = true := by
    decide
  obtain ⟨q, q', either⟩ := releasedEither_run steps 0 _ rfl hs hs' hlive (by decide) (by decide)
  obtain ⟨row, row'⟩ := either.releasedAll
  have hclosed : (q.closeView ⟨1, false⟩).isViewed = false := by
    rw [row.eq_with]
    rfl
  exact ⟨_, q, q', rfl, rfl, hlive, by decide, by decide, either, row.free_eq, row'.free_eq,
    either.cleared _ (.inl (Pool.closeView_keeps row.wellFormed _)) hclosed⟩

end Session

end ParticleStore
