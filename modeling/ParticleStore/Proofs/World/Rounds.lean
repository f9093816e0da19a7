/-
ParticleStore.Proofs.World.Rounds — how often a handle can have been issued.

A slot goes from generation to generation as it is released, and comes back to one after
`UInt32.size` = 2^32 releases. `rounds h n` counts the times that a slot which was released `n`
times has left the generation of the handle `h` behind: each of them ended one life of the
handle. Together with the life that it leads now, if it leads one, these are all its lives. Their
number never falls (`Recorded.lives_le`), whatever calls are made, and holders that
trade slots need a new life for each new holder (`Trade.count_add_le`). Before the slot was
released 2^32 times the handle has led one life at most (`Recorded.lives_le_one`).
-/
import ParticleStore.Proofs.World.Authenticity
import ParticleStore.Proofs.World.Ownership

namespace ParticleStore

variable {past new : List SlotEvent} {i j n m : Nat} {h : Handle}

/-! ## Rounds -/

/-- How often a slot that was released `n` times has left the handle's generation behind. -/
def rounds (h : Handle) (n : Nat) : Nat :=
  (List.range n).countP fun k => UInt32.ofNat k = h.generation

theorem rounds_succ :
    rounds h (n + 1) = rounds h n + if UInt32.ofNat n = h.generation then 1 else 0 := by
  simp [rounds, List.range_succ, List.countP_append, List.countP_cons]

theorem rounds_mono (hle : n ≤ m) : rounds h n ≤ rounds h m :=
  (List.range_sublist.mpr hle).countP_le

/-- To leave a generation behind is to count a round. -/
theorem rounds_lt (hnow : UInt32.ofNat n = h.generation) (hlt : n < m) :
    rounds h n < rounds h m := by
  have hsucc : rounds h (n + 1) ≤ rounds h m := rounds_mono hlt
  rw [rounds_succ, if_pos hnow] at hsucc
  omega

/-- Before the generations come round, there is one round at most, and none in the generation. -/
theorem rounds_le (hlt : n < UInt32.size) :
    rounds h n ≤ if h.generation.toNat < n then 1 else 0 := by
  induction n with
  | zero => simp [rounds]
  | succ n ih =>
    have ih := ih (by omega)
    have hgeneration : UInt32.ofNat n = h.generation ↔ n = h.generation.toNat := by
      rw [← UInt32.toNat_inj, UInt32.toNat_ofNat', UInt32.size] at *
      omega
    rw [rounds_succ]
    simp only [hgeneration]
    split at ih <;> split <;> split <;> omega

/-! ## Owners -/

/-- Who owns a slot keeps it, or another one gets it, until it is released. -/
theorem isSome_owner_append (hnone : releases new i j = 0) (howned : (owner past i j).isSome) :
    (owner (past ++ new) i j).isSome := by
  induction new using List.reverseRecOn with
  | nil => rwa [List.append_nil]
  | append_singleton new e ih =>
    rw [releases_concat] at hnone
    have hnow := ih (by omega)
    rw [← List.append_assoc, owner_concat]
    cases e with
    | issued k k' =>
      simp only [SlotEvent.ownerAt]
      split
      · rfl
      · exact hnow
    | released k k' =>
      have hout : ¬ (k = i ∧ k'.index.toNat = j) := by
        intro hat
        simp [SlotEvent.releasesAt, hat] at hnone
      simp only [SlotEvent.ownerAt, if_neg hout]
      exact hnow

namespace World

variable {w w' : World} {held held' : List HeldSlot}

/-- A slot that is live in a world counts one life. -/
def lifeOf (w : World) (slot : HeldSlot) : Nat := (w.contents slot.1 slot.2).isSome.toNat

/-- A handle shows values just while it owns its slot. -/
theorem Recorded.isSome_contents_iff (rec : Recorded past w) :
    (w.contents i h).isSome ↔ owner past i h.index.toNat = some h := by
  constructor
  · intro hsome
    obtain ⟨p, hp, hshown⟩ := exists_pool?_of_contents hsome
    obtain ⟨hpool, hlive⟩ := (Pool.isSome_contents (rec.wellFormed.pool i p hp)).mp hshown
    exact (rec.liveAt_iff hp hpool).mp hlive
  · intro howner
    obtain ⟨-, ⟨p, hp, hpool, -⟩, -⟩ := rec.owned howner
    rw [contents_of_pool hp, Pool.isSome_contents (rec.wellFormed.pool i p hp)]
    exact ⟨hpool, (rec.liveAt_iff hp hpool).mpr howner⟩

/-- The owner of a slot that is not released stays its owner. -/
theorem Recorded.owner_append (rec : Recorded past w) (rec' : Recorded (past ++ new) w')
    (hnone : releases new i j = 0) (howner : owner past i j = some h) :
    owner (past ++ new) i j = some h := by
  have hsome := isSome_owner_append hnone (Option.isSome_iff_exists.mpr ⟨h, howner⟩)
  obtain ⟨k, hk⟩ := Option.isSome_iff_exists.mp hsome
  obtain ⟨hindex, pre, post, heq, -⟩ := owner_eq_some howner
  obtain ⟨⟨p, hp, hpool, -⟩, -⟩ := rec'.issued pre i h (post ++ new) (by rw [heq]; simp)
  obtain ⟨-, -, hgeneration⟩ := rec.owned howner
  obtain ⟨hkindex, ⟨q, hq, hkpool, -⟩, hkgeneration⟩ := rec'.owned hk
  rw [hp] at hq
  cases hq
  rw [releases_append, hnone, Nat.add_zero, ← hgeneration] at hkgeneration
  rw [hk, Option.some.injEq]
  cases h
  cases k
  simp only [Handle.mk.injEq]
  exact ⟨hkpool.trans hpool.symm, UInt32.toNat_inj.mp (hkindex.trans hindex.symm), hkgeneration⟩

/-- The lives of a handle, those ended and the present one, do not become fewer. -/
theorem Recorded.lives_le (rec : Recorded past w) (rec' : Recorded (past ++ new) w') :
    rounds h (releases past i h.index.toNat) + w.lifeOf (i, h) ≤
      rounds h (releases (past ++ new) i h.index.toNat) + w'.lifeOf (i, h) := by
  have hle : releases past i h.index.toNat ≤ releases (past ++ new) i h.index.toNat := by
    rw [releases_append]
    exact Nat.le_add_right _ _
  have hmono := rounds_mono (h := h) hle
  unfold lifeOf
  cases hlive : (w.contents i h).isSome with
  | false => simp; omega
  | true =>
    cases hlive' : (w'.contents i h).isSome with
    | true => simpa using hmono
    | false =>
      -- the life has ended, so the slot was released in the handle's generation
      have howner := rec.isSome_contents_iff.mp hlive
      obtain ⟨-, -, hgeneration⟩ := rec.owned howner
      have hreleased : releases new i h.index.toNat ≠ 0 := by
        intro hnone
        have hstill := rec'.isSome_contents_iff.mpr (rec.owner_append rec' hnone howner)
        rw [hlive'] at hstill
        cases hstill
      have hlt := rounds_lt (m := releases (past ++ new) i h.index.toNat) hgeneration.symm
        (by rw [releases_append]; omega)
      simp
      omega

/-- Before its slot was released 2^32 times, a handle has led one life at most. -/
theorem Recorded.lives_le_one (rec : Recorded past w)
    (hlt : releases past i h.index.toNat < UInt32.size) :
    rounds h (releases past i h.index.toNat) + w.lifeOf (i, h) ≤ 1 := by
  have hrounds := rounds_le (h := h) hlt
  unfold lifeOf
  cases hlive : (w.contents i h).isSome with
  | false =>
    split at hrounds <;> simp <;> omega
  | true =>
    obtain ⟨-, -, hgeneration⟩ := rec.owned (rec.isSome_contents_iff.mp hlive)
    have hnow : ¬ h.generation.toNat < releases past i h.index.toNat := by
      rw [hgeneration, UInt32.toNat_ofNat', UInt32.size] at *
      omega
    rw [if_neg hnow] at hrounds
    simp
    omega

/-- An update starts or ends a life of one handle. -/
theorem Update.lifeOf_eq {entry : Option (List Scalar)} (u : w.Update i h entry w')
    (slot : HeldSlot) :
    w'.lifeOf slot = if (i, h) = slot then entry.isSome.toNat else w.lifeOf slot := by
  unfold lifeOf
  split
  · rename_i heq
    rw [← heq, u.contents_self]
  · rename_i hne
    rw [u.contents_of_ne fun hsame => hne (by rw [← hsame.1, ← hsame.2])]

/-- A slot gets a new holder with a new life only. -/
theorem Trade.count_add_le (t : Trade w held w' held') (slot : HeldSlot) :
    held'.count slot + w.lifeOf slot ≤ held.count slot + w'.lifeOf slot := by
  induction t with
  | refl w held => exact Nat.le_refl _
  | trans _ _ ih ih' => omega
  | perm w hperm => exact Nat.le_of_eq (by rw [hperm.count_eq])
  | note w held he => exact Nat.le_refl _
  | @write w w' held i h values hmem hsome u =>
    rw [u.lifeOf_eq]
    by_cases heq : (i, h) = slot
    · subst heq
      simp [lifeOf, hsome]
    · exact Nat.le_of_eq (by rw [if_neg heq])
  | @take w w' held i h values hnone u =>
    rw [u.lifeOf_eq]
    by_cases heq : (i, h) = slot
    · subst heq
      simp [lifeOf, hnone]
    · exact Nat.le_of_eq (by rw [if_neg heq, List.count_cons_of_ne heq])
  | @release w w' held i h hsome u =>
    rw [u.lifeOf_eq]
    by_cases heq : (i, h) = slot
    · subst heq
      simp [lifeOf, hsome]
    · exact Nat.le_of_eq (by rw [if_neg heq, List.count_cons_of_ne heq])
  | forget hnone =>
    rw [List.count_cons]
    exact Nat.add_le_add_right (Nat.le_add_right _ _) _

end World

end ParticleStore
