/-
ParticleStore.Session.Registry — values kept under numbers.

A registry holds at most one value per key and lists its entries by ascending key.
-/

namespace ParticleStore

/-- Values under natural-number keys, ascending. -/
structure Registry (α : Type) where
  entries : List (Nat × α) := []
deriving DecidableEq

namespace Registry

variable {α : Type}

instance : Inhabited (Registry α) := ⟨{}⟩

/-- The value under a key. -/
def find? (r : Registry α) (key : Nat) : Option α := r.entries.lookup key

/-- Put an entry at its place among ascending entries, in place of the one with its key. -/
def place (key : Nat) (a : α) : List (Nat × α) → List (Nat × α)
  | [] => [(key, a)]
  | entry :: rest =>
    if key < entry.1 then (key, a) :: entry :: rest
    else if key = entry.1 then (key, a) :: rest
    else entry :: place key a rest

/-- The registry with a value under a key, in place of the one that was there. -/
def insert (r : Registry α) (key : Nat) (a : α) : Registry α := ⟨place key a r.entries⟩

/-- The registry without the value under a key. -/
def erase (r : Registry α) (key : Nat) : Registry α :=
  ⟨r.entries.filter fun entry => entry.1 != key⟩

/-- The values by ascending key. -/
def values (r : Registry α) : List α := r.entries.map Prod.snd

theorem find?_insert_self (r : Registry α) (key : Nat) (a : α) :
    (r.insert key a).find? key = some a := by
  obtain ⟨entries⟩ := r
  simp only [find?, insert]
  induction entries with
  | nil => simp [place]
  | cons entry rest ih =>
    simp only [place]
    split
    · simp
    · split
      · simp
      · rename_i different
        rw [List.lookup_cons, show (key == entry.1) = false from by simpa using different, ih]

theorem find?_insert_of_ne (r : Registry α) {key other : Nat} (a : α) (different : other ≠ key) :
    (r.insert key a).find? other = r.find? other := by
  obtain ⟨entries⟩ := r
  have unequal : (other == key) = false := by simpa using different
  simp only [find?, insert]
  induction entries with
  | nil => simp [place, List.lookup_cons, unequal]
  | cons entry rest ih =>
    simp only [place]
    split
    · rw [List.lookup_cons, unequal]
    · split
      · rename_i same
        rw [List.lookup_cons, List.lookup_cons, unequal, ← same, unequal]
      · rw [List.lookup_cons, List.lookup_cons, ih]

theorem find?_erase_self (r : Registry α) (key : Nat) : (r.erase key).find? key = none := by
  obtain ⟨entries⟩ := r
  simp only [find?, erase]
  induction entries with
  | nil => rfl
  | cons entry rest ih =>
    by_cases same : entry.1 = key
    · simpa [List.filter_cons, same] using ih
    · have unequal : (key == entry.1) = false := by simpa using Ne.symm same
      rw [List.filter_cons_of_pos (by simpa using same), List.lookup_cons, unequal, ih]

theorem find?_erase_of_ne (r : Registry α) {key other : Nat} (different : other ≠ key) :
    (r.erase key).find? other = r.find? other := by
  obtain ⟨entries⟩ := r
  simp only [find?, erase]
  induction entries with
  | nil => rfl
  | cons entry rest ih =>
    by_cases same : entry.1 = key
    · have unequal : (other == entry.1) = false := by simpa [same] using different
      rw [List.filter_cons_of_neg (by simpa using same), List.lookup_cons, unequal, ih]
    · rw [List.filter_cons_of_pos (by simpa using same), List.lookup_cons, List.lookup_cons, ih]

end Registry

end ParticleStore
