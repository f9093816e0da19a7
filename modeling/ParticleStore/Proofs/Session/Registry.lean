/-
ParticleStore.Proofs.Session.Registry — the values of a registry as they come and go.

The entries of a registry ascend by their keys. So a key stands at one place, and up
to their order the values are the one under a key and the ones that are left when
the key is erased (`values_of_find?`, `values_insert`).
-/
import ParticleStore.Session.Registry
import Mathlib.Data.List.Perm.Basic
import Mathlib.Logic.Function.Basic

namespace ParticleStore.Registry

variable {α : Type} {r r' : Registry α} {key : Nat} {a : α}

/-- Inserting changes what is found under one key. -/
theorem find?_insert (r : Registry α) (key : Nat) (a : α) :
    (r.insert key a).find? = Function.update r.find? key (some a) := by
  funext k
  by_cases hk : k = key
  · rw [hk, find?_insert_self, Function.update_self]
  · rw [find?_insert_of_ne _ _ hk, Function.update_of_ne hk]

theorem find?_erase (r : Registry α) (key : Nat) :
    (r.erase key).find? = Function.update r.find? key none := by
  funext k
  by_cases hk : k = key
  · rw [hk, find?_erase_self, Function.update_self]
  · rw [find?_erase_of_ne _ hk, Function.update_of_ne hk]

/-- The keys ascend. -/
def Ascending (r : Registry α) : Prop := r.entries.Pairwise fun x y => x.1 < y.1

theorem ascending_empty : ({} : Registry α).Ascending := List.Pairwise.nil

/-- What is placed among entries is the new entry; the others were there. -/
theorem mem_place {entry : Nat × α} {entries : List (Nat × α)} (he : entry ∈ place key a entries) :
    entry = (key, a) ∨ entry ∈ entries := by
  induction entries with
  | nil => exact .inl (List.mem_singleton.mp he)
  | cons first rest ih =>
    unfold place at he
    split at he
    · exact List.mem_cons.mp he
    · split at he
      · rcases List.mem_cons.mp he with hnew | hold
        · exact .inl hnew
        · exact .inr (List.mem_cons_of_mem _ hold)
      · rcases List.mem_cons.mp he with rfl | hlater
        · exact .inr List.mem_cons_self
        · exact (ih hlater).imp id (List.mem_cons_of_mem _)

theorem ascending_insert (hr : r.Ascending) (key : Nat) (a : α) : (r.insert key a).Ascending := by
  obtain ⟨entries⟩ := r
  unfold Ascending insert at *
  simp only at hr ⊢
  induction entries with
  | nil => exact List.pairwise_singleton _ _
  | cons first rest ih =>
    obtain ⟨hfirst, hrest⟩ := List.pairwise_cons.mp hr
    unfold place
    split
    · rename_i hlt
      refine List.pairwise_cons.mpr ⟨fun entry he => ?_, hr⟩
      rcases List.mem_cons.mp he with rfl | hlater
      · exact hlt
      · exact Nat.lt_trans hlt (hfirst entry hlater)
    · rename_i hnlt
      split
      · rename_i heq
        exact List.pairwise_cons.mpr ⟨fun entry he => heq ▸ hfirst entry he, hrest⟩
      · rename_i hne
        refine List.pairwise_cons.mpr ⟨fun entry he => ?_, ih hrest⟩
        rcases mem_place he with rfl | hold
        · simp only
          omega
        · exact hfirst entry hold

theorem ascending_erase (hr : r.Ascending) (key : Nat) : (r.erase key).Ascending :=
  List.Pairwise.filter _ hr

/-- A registry without a key is the registry with the key erased. -/
theorem erase_of_find?_none (hnone : r.find? key = none) : r.erase key = r := by
  obtain ⟨entries⟩ := r
  have hall : ∀ entry ∈ entries, (entry.1 != key) = true := by
    intro entry he
    have hlookup := List.lookup_eq_none_iff.mp hnone entry he
    exact bne_iff_ne.mpr (Ne.symm (by simpa using hlookup))
  rw [erase, List.filter_eq_self.mpr hall]

/-- The value under a key, and the values without it, are all values. -/
theorem values_of_find? (hr : r.Ascending) (hfound : r.find? key = some a) :
    r.values.Perm (a :: (r.erase key).values) := by
  obtain ⟨entries⟩ := r
  unfold Ascending find? erase values at *
  simp only at hr hfound ⊢
  induction entries with
  | nil => cases hfound
  | cons first rest ih =>
    obtain ⟨hfirst, hrest⟩ := List.pairwise_cons.mp hr
    rw [List.lookup_cons] at hfound
    by_cases heq : first.1 = key
    · -- the keys behind the one found are greater
      have hall : ∀ entry ∈ rest, (entry.1 != key) = true := by
        intro entry he
        have hlt := hfirst entry he
        simpa [heq] using Nat.ne_of_gt (heq ▸ hlt)
      rw [heq] at hfound
      simp only [beq_self_eq_true, Option.some.injEq] at hfound
      rw [List.filter_cons_of_neg (by simpa using heq), List.filter_eq_self.mpr hall, List.map_cons,
        hfound]
    · have hne : (key == first.1) = false := by simpa using Ne.symm heq
      rw [hne] at hfound
      rw [List.filter_cons_of_pos (by simpa using heq), List.map_cons, List.map_cons]
      exact ((ih hrest hfound).cons _).trans (.swap ..)

/-- An inserted value comes to the values without its key. -/
theorem values_insert (hr : r.Ascending) (key : Nat) (a : α) :
    (r.insert key a).values.Perm (a :: (r.erase key).values) := by
  have hfound := values_of_find? (ascending_insert hr key a) (find?_insert_self r key a)
  have herase : ((r.insert key a).erase key) = r.erase key := by
    obtain ⟨entries⟩ := r
    unfold erase insert
    simp only [mk.injEq]
    induction entries with
    | nil => simp [place]
    | cons first rest ih =>
      obtain ⟨-, hrest⟩ := List.pairwise_cons.mp hr
      have ih := ih hrest (values_of_find? (ascending_insert hrest key a) (find?_insert_self _ key a))
      unfold place
      split
      · simp
      · split
        · rename_i heq
          simp [heq]
        · rw [List.filter_cons, ih, List.filter_cons]
  rw [herase] at hfound
  exact hfound

theorem mem_values_of_find? (hfound : r.find? key = some a) : a ∈ r.values := by
  obtain ⟨entries⟩ := r
  unfold find? at hfound
  induction entries with
  | nil => cases hfound
  | cons first rest ih =>
    rw [List.lookup_cons] at hfound
    split at hfound
    · cases hfound
      exact List.mem_cons_self
    · exact List.mem_cons_of_mem _ (ih hfound)

/-! ## What is found -/

/-- An entry is what is found under its key. -/
theorem mem_entries_iff (hr : r.Ascending) : (key, a) ∈ r.entries ↔ r.find? key = some a := by
  obtain ⟨entries⟩ := r
  unfold Ascending find? at *
  simp only at hr ⊢
  induction entries with
  | nil => simp
  | cons first rest ih =>
    obtain ⟨hfirst, hrest⟩ := List.pairwise_cons.mp hr
    rw [List.mem_cons, List.lookup_cons, ih hrest]
    by_cases heq : first.1 = key
    · -- behind the first entry, the keys are greater
      have hlater : (key, a) ∉ rest := fun hmem => by
        have hlt := hfirst _ hmem
        omega
      rw [← ih hrest, eq_false hlater, or_false]
      subst heq
      obtain ⟨k, v⟩ := first
      simp [eq_comm]
    · obtain ⟨k, v⟩ := first
      have hne : (key == k) = false := by simpa using Ne.symm heq
      simp [hne, Ne.symm heq]

/-- Registries in which the same is found have the same values. -/
theorem values_perm (hr : r.Ascending) (hr' : r'.Ascending)
    (hsame : ∀ key, r'.find? key = r.find? key) : r'.values.Perm r.values := by
  have hnodup {r : Registry α} (hr : r.Ascending) : r.entries.Nodup :=
    hr.imp fun hlt heq => by simp [heq] at hlt
  refine List.Perm.map _ ((List.perm_ext_iff_of_nodup (hnodup hr') (hnodup hr)).mpr fun entry => ?_)
  rw [mem_entries_iff hr', mem_entries_iff hr, hsame]

end ParticleStore.Registry
