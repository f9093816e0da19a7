/-
ParticleStore.Proofs.World.Writing — other values in slots that stay as they are.

`Writes w slots w'` compares two worlds, however many writes lie between them, as `Gains` and
`Loses` do: the scalars of the slots in the list may be others, and nothing else is. A pool
without its scalars (`Pool.ledger`) is its whole bookkeeping, so that handles, generations,
free slots, counts and open views are the same if the ledgers are. Which handles are good
is read from the ledger alone.
-/
import ParticleStore.Proofs.World.Growth

namespace ParticleStore

namespace Pool

variable {p p' : Pool} {h : Handle}

/-- What a pool knows of its slots: all but the scalars in them. -/
def ledger (p : Pool) : Pool := { p with scalars := [] }

/-- What is read from the ledger is the same for pools with one ledger. -/
theorem eq_of_ledger {α : Type} (f : Pool → α) (hf : ∀ p : Pool, f p.ledger = f p)
    (heq : p'.ledger = p.ledger) : f p' = f p := by rw [← hf, heq, hf]

theorem flawed?_of_ledger (heq : p'.ledger = p.ledger) : p'.flawed? h = p.flawed? h :=
  eq_of_ledger (Pool.flawed? · h) (fun _ => rfl) heq

end Pool

namespace World

variable {w w' w'' : World} {i : Nat} {p p' : Pool} {h : Handle} {values : List Scalar}
  {slots slots' : List HeldSlot}

/-- The world `w'` is `w` with other values in some of the slots in the list. -/
structure Writes (w : World) (slots : List HeldSlot) (w' : World) : Prop where
  evolves : w.Evolves w'
  ledgers_eq : w'.pools.map Pool.ledger = w.pools.map Pool.ledger
  kept : ∀ i h, (i, h) ∉ slots → w'.contents i h = w.contents i h

namespace Writes

theorem refl (w : World) (slots : List HeldSlot) : w.Writes slots w :=
  ⟨.refl w, rfl, fun _ _ _ => rfl⟩

theorem trans (first : w.Writes slots w') (second : w'.Writes slots' w'') :
    w.Writes (slots ++ slots') w'' where
  evolves := first.evolves.trans second.evolves
  ledgers_eq := second.ledgers_eq.trans first.ledgers_eq
  kept i h hout := by
    rw [List.mem_append, not_or] at hout
    exact (second.kept i h hout.2).trans (first.kept i h hout.1)

/-- The values of a slot are written. -/
theorem of_update (hp : w.pool? i = some p) (u : p.Update h (some values) p')
    (hledger : p'.ledger = p.ledger) : w.Writes [(i, h)] (w.setPool i p') where
  evolves := (update_setPool hp u).evolves
  ledgers_eq := by
    rw [setPool, List.map_set, hledger]
    obtain ⟨hlt, rfl⟩ := List.getElem?_eq_some_iff.mp hp
    refine List.ext_getElem (by simp) fun j hj hj' => ?_
    rw [List.getElem_set]
    split
    · rename_i heq
      subst heq
      rw [List.getElem_map]
    · rfl
  kept j k hout := (update_setPool hp u).contents_of_ne fun hsame =>
    hout (by simp [hsame.1, hsame.2])

variable (writes : w.Writes slots w')

include writes

/-- What is read from the ledger of a pool stays, whether the pool is there or not. -/
theorem map_pool? {α : Type} (f : Pool → α) (hf : ∀ p : Pool, f p.ledger = f p) (i : Nat) :
    (w'.pool? i).map f = (w.pool? i).map f := by
  have hsame : (w'.pool? i).map Pool.ledger = (w.pool? i).map Pool.ledger := by
    rw [pool?, pool?, ← List.getElem?_map, ← List.getElem?_map, writes.ledgers_eq]
  have hfactor : f = f ∘ Pool.ledger := funext fun p => (hf p).symm
  rw [hfactor, ← Option.map_map, hsame, Option.map_map]

/-- Every pool stays where it is, with its ledger. -/
theorem pool (hp : w.pool? i = some p) : ∃ p', w'.pool? i = some p' ∧ p'.ledger = p.ledger := by
  have hsame := writes.map_pool? Pool.ledger (fun _ => rfl) i
  rw [hp] at hsame
  exact Option.map_eq_some_iff.mp hsame

theorem pool?_eq_none (hp : w.pool? i = none) : w'.pool? i = none := by
  have hsame := writes.map_pool? Pool.ledger (fun _ => rfl) i
  rw [hp] at hsame
  exact Option.map_eq_none_iff.mp hsame

/-- The same handles are good. -/
theorem isSome_contents : (w'.contents i h).isSome = (w.contents i h).isSome := by
  cases hp : w.pool? i with
  | none => rw [contents, contents, hp, writes.pool?_eq_none hp]
  | some p =>
    obtain ⟨p', hp', hledger⟩ := writes.pool hp
    rw [contents_of_pool hp, contents_of_pool hp', Bool.eq_iff_iff,
      ← Pool.flawed?_eq_none_iff_contents, ← Pool.flawed?_eq_none_iff_contents,
      Pool.flawed?_of_ledger hledger]

end Writes

end World

end ParticleStore
