/-
ParticleStore.Proofs.Batch — reading many records, and giving up.

Reading a buffer takes one slot for each record with values. Where a record cannot
be placed, the particles made so far are dropped, and with them every slot that was
taken (`decodeOnto_trade`): after a reading that gave up, nothing is in hand.
-/
import ParticleStore.Batch
import ParticleStore.Proofs.Particle.Trades

namespace ParticleStore

open ParticleStore.Action World

variable {dim spacedim : Nat} {w : World} {made ps : List (Particle dim spacedim)}

namespace Particle

/-- The slots in the hands of some particles. -/
def slotsOf (ps : List (Particle dim spacedim)) : List HeldSlot := ps.flatMap slots

@[simp] theorem slotsOf_nil : slotsOf ([] : List (Particle dim spacedim)) = [] := rfl

@[simp] theorem slotsOf_cons (p : Particle dim spacedim) :
    slotsOf (p :: ps) = p.slots ++ slotsOf ps := rfl

@[simp] theorem slotsOf_append (ps qs : List (Particle dim spacedim)) :
    slotsOf (ps ++ qs) = slotsOf ps ++ slotsOf qs := List.flatMap_append

theorem slotsOf_perm {qs : List (Particle dim spacedim)} (hperm : ps.Perm qs) :
    (slotsOf ps).Perm (slotsOf qs) := hperm.flatMap_right _

/-- The world once particles are dropped, the first one first. -/
def worldWithoutAll (w : World) : List (Particle dim spacedim) → World
  | [] => w
  | p :: rest => worldWithoutAll (p.worldWithout w) rest

/-- Dropping particles never fails, and their slots are in nobody's hands afterwards. -/
theorem exec_dropAll {ε : Type} (wf : w.WellFormed) (placed : ∀ p ∈ ps, p.Placed w) :
    (dropAll ps : Action ε Unit).exec w = (.ok (), worldWithoutAll w ps) ∧
      Trade w (slotsOf ps) (worldWithoutAll w ps) [] := by
  induction ps generalizing w with
  | nil => exact ⟨rfl, .refl w []⟩
  | cons p rest ih =>
    have hp : p.Placed w := placed p List.mem_cons_self
    have t := trade_without (slotsOf rest) wf hp
    have e := t.evolves
    obtain ⟨hexec, trade⟩ := ih (e.wellFormed wf) fun q hq =>
      (placed q (List.mem_cons_of_mem p hq)).evolves e
    refine ⟨?_, t.trans trade⟩
    unfold dropAll
    rw [exec_bind, exec_drop wf hp]
    exact hexec

end Particle

namespace Batch

open Particle

variable {pool : Option Nat} {input rest : Bytes} {r : Record dim spacedim}
  {failure : Failure ParticleError}

theorem run_giveUp (wf : w.WellFormed) (placed : ∀ p ∈ made, p.Placed w) :
    (giveUp made failure rest).run w = (⟨.error failure, rest⟩, worldWithoutAll w made) := by
  have hexec := (exec_dropAll (ε := ParticleError) wf placed).1
  unfold giveUp
  rw [StateT.run_bind]
  unfold exec at hexec
  rw [hexec]
  rfl

theorem run_decodeOnto_nil :
    (decodeOnto pool made []).run w =
      (⟨.ok made, []⟩, { w with events := w.events ++ [.batchDecoded made.length] }) := by
  rw [decodeOnto]
  rfl

theorem run_decodeOnto_error {cause : RecordError} (hne : input ≠ [])
    (hd : (Record.decoder dim spacedim).run input = .error cause) :
    (decodeOnto pool made input).run w = (giveUp made (.refused (.malformed cause)) input).run w := by
  have hempty : input.isEmpty = false := by simpa using hne
  rw [decodeOnto]
  simp only [hempty, Bool.false_eq_true, if_false]
  split
  · rename_i cause' he
    rw [hd] at he
    cases he
    rfl
  · rename_i he
    rw [hd] at he
    cases he

theorem run_decodeOnto_ok (hd : (Record.decoder dim spacedim).run input = .ok (r, rest)) :
    (decodeOnto pool made input).run w =
      match (ofRecord pool r).exec w with
      | (.ok p, w') => (decodeOnto pool (made ++ [p]) rest).run w'
      | (.error failure, w') => (giveUp made failure input).run w' := by
  have hempty : input.isEmpty = false := by
    have hlt := Record.length_lt_of_decode hd
    cases input with
    | nil => simp at hlt
    | cons _ _ => rfl
  rw [decodeOnto]
  simp only [hempty, Bool.false_eq_true, if_false]
  split
  · rename_i he
    rw [hd] at he
    cases he
  · rename_i r' rest' he
    rw [hd] at he
    cases he
    rw [StateT.run_bind]
    unfold exec
    cases (ofRecord pool r).run.run w with
    | mk result w' => cases result <;> rfl

/-- After a reading all particles read hold their slots, or nothing that was taken is held
any more. -/
theorem decodeOnto_trade (made : List (Particle dim spacedim)) (wf : w.WellFormed)
    (hpool : ∀ i, pool = some i → ∃ pl, w.pool? i = some pl) (placed : ∀ p ∈ made, p.Placed w)
    (input : Bytes) :
    ∃ reading w', (decodeOnto pool made input).run w = (reading, w') ∧
      match reading.outcome with
      | .ok made' => Trade w (slotsOf made) w' (slotsOf made') ∧ ∀ p ∈ made', p.Placed w'
      | .error _ => Trade w (slotsOf made) w' [] := by
  -- on the bytes left, each record being shorter than what it was read from
  induction hlength : input.length using Nat.strongRecOn generalizing w made input with
  | _ n ih =>
  subst hlength
  by_cases hne : input = []
  · subst hne
    refine ⟨_, _, run_decodeOnto_nil, ?_, fun p hp => (placed p hp).evolves (.of_pools rfl rfl)⟩
    exact .note _ _ Level.noConfusion
  · have gaveUp := (exec_dropAll (ε := ParticleError) wf placed).2
    cases hd : (Record.decoder dim spacedim).run input with
    | error cause => exact ⟨_, _, (run_decodeOnto_error hne hd).trans (run_giveUp wf placed), gaveUp⟩
    | ok result =>
      obtain ⟨r, rest⟩ := result
      have hshorter : rest.length < input.length := Record.length_lt_of_decode hd
      obtain ⟨cause, p, w₁, he, hpost⟩ := ofRecord_settles (r := r) wf hpool
      rw [run_decodeOnto_ok hd, he]
      cases cause with
      | some e => exact ⟨_, _, run_giveUp wf placed, gaveUp⟩
      | none =>
        have hmade := hpost rfl
        have e := hmade.trade.evolves
        have placed' : ∀ q ∈ made ++ [p], q.Placed w₁ := by
          intro q hq
          rcases List.mem_append.mp hq with hold | hnew
          · exact (placed q hold).evolves e
          · rw [List.mem_singleton.mp hnew]
            exact hmade.placed
        have hpool' : ∀ i, pool = some i → ∃ pl, w₁.pool? i = some pl := by
          intro i hi
          obtain ⟨pl, hp⟩ := hpool i hi
          obtain ⟨pl', hp', -⟩ := e.pool i pl hp
          exact ⟨pl', hp'⟩
        obtain ⟨reading, w', hrun, hreading⟩ :=
          ih rest.length hshorter _ (e.wellFormed wf) hpool' placed' rest rfl
        have grown : Trade w (slotsOf made) w₁ (slotsOf (made ++ [p])) := by
          have t := (hmade.trade.append (slotsOf made)).trans (.perm _ List.perm_append_comm)
          simpa using t
        refine ⟨reading, w', hrun, ?_⟩
        cases houtcome : reading.outcome with
        | ok made' =>
          rw [houtcome] at hreading
          exact ⟨grown.trans hreading.1, hreading.2⟩
        | error failure =>
          rw [houtcome] at hreading
          exact grown.trans hreading

end Batch

end ParticleStore
