/-
ParticleStore.Proofs.World.History — what the tables know of the slots issued and released.

A history lists the slots that the pools have issued and released, oldest first. From it
alone come who owns a slot (`owner`: the handle issued for it last, unless it was released
since) and how often it was released (`releases`). `Recorded history w` says that the tables
of the world `w` keep just that much of the history: a slot's generation is the number of
its releases, reduced to 32 bits, and it is live while it has an owner. So a handle that
was issued says which slot of which pool it is for, and, up to a multiple of 2^32, how
often that slot had been released.

One case for each effect of a call (`Recorded.step`), and every run of calls is on record
(`recorded_of_leads`).
-/
import ParticleStore.Proofs.World.Effects
import ParticleStore.Proofs.World.Growth
import Mathlib.Data.List.Induction

namespace ParticleStore

variable {past new pre post : List SlotEvent} {e : SlotEvent} {i j k : Nat} {h : Handle}

/-! ## Histories -/

namespace SlotEvent

/-- How often the event releases slot `j` of pool `i`: once or not at all. -/
def releasesAt (i j : Nat) : SlotEvent → Nat
  | issued .. => 0
  | released pool h => if pool = i ∧ h.index.toNat = j then 1 else 0

/-- Who owns slot `j` of pool `i` after the event, if `now` owned it before. -/
def ownerAt (i j : Nat) (now : Option Handle) : SlotEvent → Option Handle
  | issued pool h => if pool = i ∧ h.index.toNat = j then some h else now
  | released pool h => if pool = i ∧ h.index.toNat = j then none else now

end SlotEvent

/-- How often slot `j` of pool `i` was released. -/
def releases (history : List SlotEvent) (i j : Nat) : Nat :=
  history.foldr (SlotEvent.releasesAt i j · + ·) 0

/-- The handle whose allocation owns slot `j` of pool `i`, if one does. -/
def owner (history : List SlotEvent) (i j : Nat) : Option Handle :=
  history.foldl (SlotEvent.ownerAt i j) none

@[simp] theorem releases_nil : releases [] i j = 0 := rfl

@[simp] theorem owner_nil : owner [] i j = none := rfl

theorem releases_cons : releases (e :: past) i j = e.releasesAt i j + releases past i j := rfl

theorem releases_append : releases (past ++ new) i j = releases past i j + releases new i j := by
  induction past with
  | nil => rw [List.nil_append, releases_nil, Nat.zero_add]
  | cons e past ih => rw [List.cons_append, releases_cons, releases_cons, ih, Nat.add_assoc]

theorem releases_concat : releases (past ++ [e]) i j = releases past i j + e.releasesAt i j := by
  rw [releases_append, releases_cons, releases_nil, Nat.add_zero]

theorem owner_concat : owner (past ++ [e]) i j = e.ownerAt i j (owner past i j) := by
  simp [owner, List.foldl_append]

/-- An event of a history that has grown by one is the new one, or an old one. -/
theorem concat_eq_append_cons {new : SlotEvent} (heq : past ++ [new] = pre ++ e :: post) :
    (past = pre ∧ new = e ∧ post = []) ∨ ∃ rest, past = pre ++ e :: rest ∧ post = rest ++ [new] := by
  rcases List.eq_nil_or_concat post with rfl | ⟨rest, last, rfl⟩
  · obtain ⟨hpast, hnew⟩ := List.append_inj' heq rfl
    exact .inl ⟨hpast, List.singleton_inj.mp hnew, rfl⟩
  · rw [List.concat_eq_append, ← List.cons_append, ← List.append_assoc] at heq
    obtain ⟨hpast, hnew⟩ := List.append_inj' heq rfl
    exact .inr ⟨rest, hpast, by rw [List.singleton_inj.mp hnew, List.concat_eq_append]⟩

/-- The owner of a slot was issued for it, and the slot was not released since. -/
theorem owner_eq_some (howner : owner past i j = some h) :
    h.index.toNat = j ∧ ∃ pre post, past = pre ++ .issued i h :: post ∧ releases post i j = 0 := by
  induction past using List.reverseRecOn with
  | nil => cases howner
  | append_singleton past e ih =>
    -- an event that leaves the owner does not release the slot
    have old (hsame : owner past i j = some h) (hnone : e.releasesAt i j = 0) :
        h.index.toNat = j ∧
          ∃ pre post, past ++ [e] = pre ++ .issued i h :: post ∧ releases post i j = 0 := by
      obtain ⟨hj, pre, post, rfl, hpost⟩ := ih hsame
      refine ⟨hj, pre, post ++ [e], by simp, ?_⟩
      rw [releases_concat, hpost, hnone]
    rw [owner_concat] at howner
    cases e with
    | issued k h' =>
      simp only [SlotEvent.ownerAt] at howner
      split at howner
      · rename_i hat
        cases howner
        rw [hat.1]
        exact ⟨hat.2, past, [], rfl, rfl⟩
      · exact old howner rfl
    | released k h' =>
      simp only [SlotEvent.ownerAt] at howner
      split at howner
      · cases howner
      · rename_i hout
        exact old howner (if_neg hout)

namespace World

variable {w w' : World} {p p' : Pool}

/-- Slot `j` of the pool at position `i`. -/
def slot? (w : World) (i j : Nat) : Option Slot := (w.pool? i).bind fun p => p.slots[j]?

theorem slot?_of_pool (hp : w.pool? i = some p) : w.slot? i j = p.slots[j]? := by
  rw [slot?, hp]
  rfl

theorem slot?_eq_none_iff (hp : w.pool? i = some p) : w.slot? i j = none ↔ p.totalSlots ≤ j := by
  rw [slot?_of_pool hp, List.getElem?_eq_none_iff, Pool.totalSlots]

/-- Every pool stays where it is, with its id. -/
def KeepsIds (w w' : World) : Prop :=
  ∀ i p, w.pool? i = some p → ∃ p', w'.pool? i = some p' ∧ p'.id = p.id

theorem KeepsIds.of_set (hp : w.pool? i = some p) (hpools : w'.pools = w.pools.set i p')
    (hid : p'.id = p.id) : w.KeepsIds w' := by
  intro j q hq
  rw [pool?_of_set hp hpools]
  split
  · rename_i hj
    rw [hj, hp] at hq
    cases hq
    exact ⟨p', rfl, hid⟩
  · exact ⟨q, hq, rfl⟩

/-- The table of one pool changes. -/
theorem slot?_of_set (hp : w.pool? i = some p) (hpools : w'.pools = w.pools.set i p') :
    w'.slot? k j = if k = i then p'.slots[j]? else w.slot? k j := by
  rw [slot?, pool?_of_set hp hpools]
  split
  · rfl
  · rfl

/-- The handle is of a slot of the pool at position `i`. -/
def HasSlot (w : World) (i : Nat) (h : Handle) : Prop :=
  ∃ p, w.pool? i = some p ∧ h.pool = p.id ∧ h.index.toNat < p.totalSlots

theorem HasSlot.mono (ids : w.KeepsIds w') (hkept : ∀ i j, w'.slot? i j = none → w.slot? i j = none)
    (has : w.HasSlot i h) : w'.HasSlot i h := by
  obtain ⟨p, hp, hid, hlt⟩ := has
  obtain ⟨p', hp', hid'⟩ := ids i p hp
  refine ⟨p', hp', hid.trans hid'.symm, ?_⟩
  rw [← Nat.not_le, ← slot?_eq_none_iff hp']
  intro hnone
  have hout := (slot?_eq_none_iff hp).mp (hkept i h.index.toNat hnone)
  omega

/-- The tables record this history. -/
structure Recorded (history : List SlotEvent) (w : World) : Prop where
  wellFormed : w.WellFormed
  /-- A slot's generation counts its releases, and it is live while it is owned. -/
  slot : ∀ i j s, w.slot? i j = some s →
    s = ⟨UInt32.ofNat (releases history i j), (owner history i j).isSome⟩
  /-- Nothing has happened to a slot that is not there. -/
  unused : ∀ i j, w.slot? i j = none → releases history i j = 0 ∧ owner history i j = none
  /-- A handle that was issued is of a slot there is, and of its generation then. -/
  issued : ∀ pre i h post, history = pre ++ .issued i h :: post →
    w.HasSlot i h ∧ h.generation = UInt32.ofNat (releases pre i h.index.toNat)

theorem recorded_empty : Recorded [] {} where
  wellFormed := wellFormed_empty
  slot i j s hs := by simp [slot?, pool?] at hs
  unused i j _ := ⟨rfl, rfl⟩
  issued pre i h post heq := by simp at heq

namespace Recorded

/-- The owner's handle is of the slot, and of its generation. -/
theorem owned (rec : Recorded past w) (howner : owner past i j = some h) :
    h.index.toNat = j ∧ w.HasSlot i h ∧ h.generation = UInt32.ofNat (releases past i j) := by
  obtain ⟨hj, pre, post, rfl, hpost⟩ := owner_eq_some howner
  obtain ⟨has, hgeneration⟩ := rec.issued pre i h post rfl
  refine ⟨hj, has, ?_⟩
  rw [hgeneration, releases_append, releases_cons, hpost, hj]
  rfl

/-- No table changes. -/
theorem keep (rec : Recorded past w) (wf : w'.WellFormed) (ids : w.KeepsIds w')
    (hslots : ∀ i j, w'.slot? i j = w.slot? i j) : Recorded past w' where
  wellFormed := wf
  slot i j s hs := rec.slot i j s (by rw [← hslots]; exact hs)
  unused i j hnone := rec.unused i j (by rw [← hslots]; exact hnone)
  issued pre i h post heq := by
    obtain ⟨has, hgeneration⟩ := rec.issued pre i h post heq
    exact ⟨has.mono ids fun i j hnone => by rw [← hslots]; exact hnone, hgeneration⟩

/-- One slot changes, as the event says, and it is there afterwards. -/
theorem change {s : Slot} (rec : Recorded past w) (wf : w'.WellFormed) (ids : w.KeepsIds w')
    (hslots : ∀ k l, w'.slot? k l = if i = k ∧ j = l then some s else w.slot? k l)
    (hs : s = ⟨UInt32.ofNat (releases (past ++ [e]) i j), (owner (past ++ [e]) i j).isSome⟩)
    (hreleases : ∀ k l, ¬ (i = k ∧ j = l) → e.releasesAt k l = 0)
    (howner : ∀ k l now, ¬ (i = k ∧ j = l) → e.ownerAt k l now = now)
    (hissued : ∀ k h, e = .issued k h →
      w'.HasSlot k h ∧ h.generation = UInt32.ofNat (releases past k h.index.toNat)) :
    Recorded (past ++ [e]) w' where
  wellFormed := wf
  slot k l s' hs' := by
    rw [hslots] at hs'
    split at hs'
    · rename_i hat
      rw [← hat.1, ← hat.2, ← hs]
      exact (Option.some.inj hs').symm
    · rename_i hout
      rw [releases_concat, owner_concat, hreleases k l hout, howner k l _ hout]
      exact rec.slot k l s' hs'
  unused k l hnone := by
    rw [hslots] at hnone
    split at hnone
    · cases hnone
    · rename_i hout
      rw [releases_concat, owner_concat, hreleases k l hout, howner k l _ hout]
      exact rec.unused k l hnone
  issued pre k h post heq := by
    rcases concat_eq_append_cons heq with ⟨rfl, hlast, -⟩ | ⟨rest, rfl, -⟩
    · exact hissued k h hlast
    · obtain ⟨has, hgeneration⟩ := rec.issued pre k h rest rfl
      refine ⟨has.mono ids fun k l hnone => ?_, hgeneration⟩
      rw [hslots] at hnone
      split at hnone
      · cases hnone
      · exact hnone

/-- The next slot is taken, in the generation that it has. -/
theorem issue (rec : Recorded past w) (wf : w'.WellFormed) (hp : w.pool? i = some p)
    (hpools : w'.pools = w.pools.set i p') (hid : p'.id = p.id) (hslots : p'.slots = p.taken.slots) :
    Recorded (past ++ [.issued i p.nextHandle]) w' := by
  have wfp := rec.wellFormed.pool i p hp
  have hp' : w'.pool? i = some p' := by rw [pool?_of_set hp hpools, if_pos rfl]
  have hgeneration :
      p.nextGeneration = UInt32.ofNat (releases past i p.nextIndex.toNat) := by
    rw [Pool.nextGeneration]
    cases hslot : p.slots[p.nextIndex.toNat]? with
    | none =>
      rw [(rec.unused i p.nextIndex.toNat ((slot?_of_pool hp).trans hslot)).1]
      rfl
    | some s =>
      rw [rec.slot i p.nextIndex.toNat s ((slot?_of_pool hp).trans hslot)]
      rfl
  have hchanged : ∀ k l, w'.slot? k l =
      if i = k ∧ p.nextIndex.toNat = l then some ⟨p.nextGeneration, true⟩ else w.slot? k l := by
    intro k l
    rw [slot?_of_set hp hpools, hslots, Pool.getElem?_slots_taken wfp]
    by_cases hk : k = i
    · subst hk
      rw [slot?_of_pool hp]
      simp [eq_comm]
    · simp [hk, Ne.symm hk]
  refine rec.change wf (.of_set hp hpools hid) hchanged ?_ (fun _ _ _ => rfl)
    (fun k l now hout => if_neg hout) ?_
  · rw [releases_concat, owner_concat, hgeneration]
    simp [SlotEvent.ownerAt, SlotEvent.releasesAt]
  · rintro k h he
    cases he
    refine ⟨⟨p', hp', hid.symm, ?_⟩, hgeneration⟩
    rw [Pool.totalSlots, hslots]
    exact Pool.nextIndex_lt_totalSlots_taken wfp

/-- A live slot is released, and goes to its next generation. -/
theorem release (rec : Recorded past w) (wf : w'.WellFormed) (hp : w.pool? i = some p)
    (hpools : w'.pools = w.pools.set i (p.released h)) (hgood : p.flawed? h = none) :
    Recorded (past ++ [.released i h]) w' := by
  have hlive := Pool.liveAt_of_flawed? (rec.wellFormed.pool i p hp) hgood
  have hgeneration : h.generation = UInt32.ofNat (releases past i h.index.toNat) := by
    have hslot := rec.slot i h.index.toNat _ ((slot?_of_pool hp).trans hlive)
    exact congrArg Slot.generation hslot
  have hchanged : ∀ k l, w'.slot? k l =
      if i = k ∧ h.index.toNat = l then some ⟨h.generation + 1, false⟩ else w.slot? k l := by
    intro k l
    rw [slot?_of_set hp hpools, Pool.getElem?_slots_released hlive]
    by_cases hk : k = i
    · subst hk
      rw [slot?_of_pool hp]
      simp [eq_comm]
    · simp [hk, Ne.symm hk]
  refine rec.change wf (.of_set hp hpools rfl) hchanged ?_ (fun k l hout => if_neg hout)
    (fun k l now hout => if_neg hout) (fun k h' he => by cases he)
  rw [releases_concat, owner_concat, hgeneration]
  simp [SlotEvent.ownerAt, SlotEvent.releasesAt, UInt32.ofNat_add]

/-- **The record is kept by every call.** -/
theorem step {quiet : Bool} {events : List SlotEvent} (rec : Recorded past w) (wf : w'.WellFormed)
    (effect : w.Effect quiet events w') : Recorded (past ++ events) w' := by
  cases effect with
  | idle hpools =>
    rw [List.append_nil]
    have hsame : ∀ i, w'.pool? i = w.pool? i := fun i => pool?_of_pools hpools
    exact rec.keep wf (fun i p hp => ⟨p, (hsame i).trans hp, rfl⟩) fun i j => by
      rw [slot?, hsame, slot?]
  | made hpools hempty =>
    rw [List.append_nil]
    refine rec.keep wf (fun i p hp => ?_) fun i j => ?_
    · exact ⟨p, by rw [pool?_append hpools, if_neg (Nat.ne_of_lt (lt_of_pool? hp))]; exact hp, rfl⟩
    · rw [slot?, pool?_append hpools]
      split
      · rename_i hi
        rw [slot?, pool?, hi, List.getElem?_length]
        simp [hempty]
      · rfl
  | changed hp hpools htable =>
    rw [List.append_nil]
    refine rec.keep wf (.of_set hp hpools htable.id_eq) fun i j => ?_
    rw [slot?_of_set hp hpools, htable.slots_eq]
    split
    · rename_i hi
      rw [hi, slot?_of_pool hp]
    · rfl
  | issued hp hpools _ u hslots => exact rec.issue wf hp hpools u.id_eq hslots
  | released hp hpools hgood => exact rec.release wf hp hpools hgood

end Recorded

/-- **The tables of every world that calls lead to record what the calls have done.** -/
theorem recorded_of_leads {allowed : PoolCall → Bool} {history : List SlotEvent}
    (leads : ({} : World).Leads allowed history w) : Recorded history w := by
  obtain ⟨calls, -, hrun⟩ := leads
  have hstep : ∀ past w, ∀ c ∈ calls, Recorded past w →
      Recorded (past ++ (w.call c).1) (w.call c).2 := by
    intro past w c _ rec
    obtain ⟨wf, effect⟩ := effect_call rec.wellFormed c
    exact rec.step wf effect
  have hkept := callAll_induction hstep recorded_empty
  rwa [hrun] at hkept

end World

end ParticleStore
