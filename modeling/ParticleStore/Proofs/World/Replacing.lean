/-
ParticleStore.Proofs.World.Replacing — one slot in place of another.

Whoever gives up one slot for another takes the new one first, so that a refusal leaves the
old one as it was. `Replaces w old new values w'` says what has happened to the world once both
are done, in one pool or in two: the handle `new` shows the values, `old` is stale, every other
live slot shows what it showed, and the pools count one slot less and one slot more.

The slot given up is the first one that its pool uses again (`nextHandle_released`). Nothing
changes that but the allocations and releases in the same pool (`Leads.sameTable`), so it
is the next slot that the pool issues, whatever happens until then.
-/
import ParticleStore.Proofs.World.Authenticity
import ParticleStore.Proofs.World.Demand

namespace ParticleStore

/-- The position of the pool that issues or releases the slot. -/
def SlotEvent.pool : SlotEvent → Nat
  | .issued i _ | .released i _ => i

namespace Pool

variable {p p' p'' : Pool} {h : Handle}

theorem SameTable.refl (wf : p.WellFormed) : p.SameTable p := ⟨wf, rfl, rfl, rfl, rfl⟩

theorem SameTable.trans (same : p.SameTable p') (same' : p'.SameTable p'') : p.SameTable p'' where
  wellFormed := same'.wellFormed
  id_eq := same'.id_eq.trans same.id_eq
  config_eq := same'.config_eq.trans same.config_eq
  slots_eq := same'.slots_eq.trans same.slots_eq
  free_eq := same'.free_eq.trans same.free_eq

/-- The next slot comes from the table and the slots to be used again. -/
theorem SameTable.nextHandle_eq (same : p.SameTable p') : p'.nextHandle = p.nextHandle := by
  have hindex : p'.nextIndex = p.nextIndex := by
    rw [nextIndex, same.free_eq, same.totalSlots_eq, nextIndex]
  rw [nextHandle, nextHandle, nextGeneration, nextGeneration, hindex, same.slots_eq, same.id_eq]

/-- The slot released last is used next, in its next generation. -/
theorem nextHandle_released (hlive : p.LiveAt h.index.toNat h.generation) :
    (p.released h).nextHandle = ⟨p.id, h.index, h.generation + 1⟩ := by
  have hindex : (p.released h).nextIndex = h.index := rfl
  rw [nextHandle, nextGeneration, hindex, getElem?_slots_released hlive, if_pos rfl]
  rfl

/-- A table does not grow while a slot waits to be used again. -/
theorem totalSlots_taken_of_free (hfree : p.free ≠ []) : p.taken.totalSlots = p.totalSlots := by
  rw [totalSlots_taken, if_neg hfree]

end Pool

namespace World

variable {w w' w₁ : World} {i j : Nat} {p p' tg : Pool} {h k : Handle} {values : List Scalar}
  {quiet : Bool} {events : List SlotEvent} {allowed : PoolCall → Bool} {old new slot : HeldSlot}
  {entry : Option (List Scalar)}

/-! ## Pools that issue and release nothing -/

theorem Effect.sameTable (wf : w.WellFormed) (effect : w.Effect quiet events w')
    (hp : w.pool? i = some p) (hnone : ∀ e ∈ events, e.pool ≠ i) :
    ∃ p', w'.pool? i = some p' ∧ p.SameTable p' := by
  have wfp := wf.pool i p hp
  -- elsewhere the pool is what it was
  have elsewhere {j : Nat} {q q' : Pool} (hq : w.pool? j = some q)
      (hpools : w'.pools = w.pools.set j q') (hj : j ≠ i) :
      ∃ p', w'.pool? i = some p' ∧ p.SameTable p' :=
    ⟨p, by rw [pool?_of_set hq hpools, if_neg hj.symm, hp], .refl wfp⟩
  cases effect with
  | idle hpools => exact ⟨p, (pool?_of_pools hpools).trans hp, .refl wfp⟩
  | made hpools =>
    refine ⟨p, ?_, .refl wfp⟩
    rw [pool?_append hpools, if_neg (Nat.ne_of_lt (lt_of_pool? hp)), hp]
  | @changed _ j q q' hq hpools same =>
    by_cases hj : j = i
    · subst hj
      rw [hp] at hq
      cases hq
      exact ⟨q', by rw [pool?_of_set hp hpools, if_pos rfl], same⟩
    · exact elsewhere hq hpools hj
  | issued hq hpools => exact elsewhere hq hpools (hnone _ (List.mem_singleton_self _))
  | released hq hpools => exact elsewhere hq hpools (hnone _ (List.mem_singleton_self _))

/-- Calls that issue and release no slot of a pool leave its table alone. -/
theorem Leads.sameTable (leads : w.Leads allowed events w') (wf : w.WellFormed)
    (hp : w.pool? i = some p) (hnone : ∀ e ∈ events, e.pool ≠ i) :
    ∃ p', w'.pool? i = some p' ∧ p.SameTable p' := by
  obtain ⟨calls, -, hcalls⟩ := leads
  have hcall (past : List SlotEvent) (w₁ : World) (c : PoolCall) (_ : c ∈ calls)
      (before : w₁.WellFormed ∧ ((∀ e ∈ past, e.pool ≠ i) →
        ∃ p', w₁.pool? i = some p' ∧ p.SameTable p')) :
      (w₁.call c).2.WellFormed ∧ ((∀ e ∈ past ++ (w₁.call c).1, e.pool ≠ i) →
        ∃ p', (w₁.call c).2.pool? i = some p' ∧ p.SameTable p') := by
    obtain ⟨wf₁, hsame⟩ := before
    obtain ⟨wf₂, effect⟩ := effect_call wf₁ c
    refine ⟨wf₂, fun hall => ?_⟩
    obtain ⟨p₁, hp₁, same⟩ := hsame fun e he => hall e (List.mem_append_left _ he)
    obtain ⟨p₂, hp₂, same'⟩ := effect.sameTable wf₁ hp₁ fun e he => hall e (List.mem_append_right _ he)
    exact ⟨p₂, hp₂, same.trans same'⟩
  have hstart : w.WellFormed ∧ ((∀ e ∈ ([] : List SlotEvent), e.pool ≠ i) →
      ∃ p', w.pool? i = some p' ∧ p.SameTable p') := ⟨wf, fun _ => ⟨p, hp, .refl (wf.pool i p hp)⟩⟩
  have hkept := callAll_induction hcall hstart
  rw [hcalls, List.nil_append] at hkept
  exact hkept.2 hnone

/-- **The slot released last is the next one that the pool issues**, whatever calls come in
between, and the table does not grow. An allocation finds it cleared. -/
theorem issued_after_release {c : PoolCall} (hp : w.pool? i = some p)
    (hlive : p.LiveAt h.index.toNat h.generation) (hreleased : w'.pool? i = some (p.released h))
    (wf' : w'.WellFormed) (leads : w'.Leads allowed events w₁) (hnone : ∀ e ∈ events, e.pool ≠ i)
    (hissued : (w₁.call c).1 = [.issued i k]) :
    k = ⟨p.id, h.index, h.generation + 1⟩ ∧ (w₁.call c).2.tableSize i = w.tableSize i ∧
      (c = .allocate i → (w₁.call c).2.contents i k = some p.zeros) := by
  obtain ⟨q, hq, same⟩ := leads.sameTable wf' hreleased hnone
  have wf₁ : w₁.WellFormed :=
    leads.keeps (fun w c _ wf => (effect_call wf c).1) wf'
  have wfq := wf₁.pool i q hq
  have hfree : q.free ≠ [] := by
    rw [same.free_eq]
    exact List.cons_ne_nil _ _
  have hnext : q.nextHandle = ⟨p.id, h.index, h.generation + 1⟩ :=
    same.nextHandle_eq.trans (Pool.nextHandle_released hlive)
  obtain ⟨-, effect⟩ := effect_call wf₁ c
  rw [hissued] at effect
  cases effect with
  | @issued _ _ _ q' values hq' hpools hview u hslots =>
    rw [hq] at hq'
    cases hq'
    have hpool : (w₁.call c).2.pool? i = some q' := by rw [pool?_of_set hq hpools, if_pos rfl]
    refine ⟨hnext, ?_, ?_⟩
    · rw [tableSize_of_pool hpool, tableSize_of_pool hp, Pool.totalSlots, hslots, ← Pool.totalSlots,
        Pool.totalSlots_taken_of_free hfree, same.totalSlots_eq, Pool.totalSlots_released]
    · rintro rfl
      rw [call_allocate, exec_allocate hq wfq] at hissued ⊢
      cases hcause : q.viewed?.or q.full? with
      | some cause =>
        rw [hcause] at hissued
        cases hissued
      | none =>
        rw [Option.or_eq_none_iff, Pool.viewed?_eq_none_iff, Pool.full?_eq_none_iff] at hcause
        have taken := Pool.update_taken wfq hcause.1 hcause.2
        have hzeros : q.zeros = p.zeros := by
          rw [Pool.zeros, Pool.stride, same.config_eq]
          rfl
        rw [← hzeros]
        exact (update_setPool hq taken).contents_self

/-! ## One slot for another -/

/-- An event that is no warning makes no difference to an update. -/
theorem Update.noted (u : w.Update i h entry w') {e : Event} (he : e.level ≠ .warn) :
    w.Update i h entry { w' with events := w'.events ++ [e] } where
  pool := u.pool
  nextId_eq := u.nextId_eq
  quiet := fun e' he' => by
    rcases List.mem_append.mp he' with hold | hnew
    · exact u.quiet e' hold
    · rw [List.mem_singleton.mp hnew]
      exact .inr he

/-- The slot `new` is taken for values, and then the slot `old` is released. -/
structure Replaces (w : World) (old new : HeldSlot) (values : List Scalar) (w' : World) : Prop where
  old_live : (w.contents old.1 old.2).isSome
  new_fresh : w.contents new.1 new.2 = none
  updates : ∃ w₁, w.Update new.1 new.2 (some values) w₁ ∧ w₁.Update old.1 old.2 none w'
  /-- A pool that takes no slot has released one, and that is all. -/
  released : new.1 ≠ old.1 → ∀ p, w.pool? old.1 = some p → w'.pool? old.1 = some (p.released old.2)

/-- A slot is filled, and another one is released. -/
theorem replaces_filled (wf : w.WellFormed) (hsome : (w.contents i h).isSome)
    (ht : w.pool? j = some tg) (hnone : tg.viewed?.or tg.full? = none)
    (hlen : values.length = tg.stride) :
    w.Replaces (i, h) (j, tg.nextHandle) values ((w.setPool j (tg.filled values)).without i h) := by
  have wft := wf.pool j tg ht
  rw [Option.or_eq_none_iff, Pool.viewed?_eq_none_iff, Pool.full?_eq_none_iff] at hnone
  have u := update_setPool ht (Pool.update_filled wft hnone.1 hnone.2 hlen)
  have hkept := contents_setPool_filled wf ht hnone.1 hnone.2 hlen hsome
  refine ⟨hsome, ?_, ⟨_, u, update_without (u.wellFormed wf) (hkept ▸ hsome)⟩, fun hne p hp => ?_⟩
  · rw [contents_of_pool ht, Pool.contents_nextHandle wft]
  · have hp' := (pool?_setPool_of_ne (p := tg.filled values) (Ne.symm hne)).trans hp
    rw [without_eq hp', pool?_setPool_self (by simp [hp'])]

namespace Replaces

variable (replaces : w.Replaces old new values w')

include replaces

theorem noted {e : Event} (he : e.level ≠ .warn) :
    w.Replaces old new values { w' with events := w'.events ++ [e] } := by
  obtain ⟨hold, hnew, ⟨w₁, u₁, u₂⟩, hreleased⟩ := replaces
  exact ⟨hold, hnew, ⟨w₁, u₁, u₂.noted he⟩, hreleased⟩

/-- The slot taken is not the one that is given up. -/
theorem new_ne_old : new ≠ old := by
  rintro rfl
  have hsome := replaces.old_live
  rw [replaces.new_fresh] at hsome
  cases hsome

theorem evolves : w.Evolves w' := by
  obtain ⟨w₁, u₁, u₂⟩ := replaces.updates
  exact u₁.evolves.trans u₂.evolves

theorem contents_new : w'.contents new.1 new.2 = some values := by
  obtain ⟨w₁, u₁, u₂⟩ := replaces.updates
  rw [u₂.contents_of_ne fun hsame => replaces.new_ne_old (Prod.ext hsame.1 hsame.2)]
  exact u₁.contents_self

theorem contents_old : w'.contents old.1 old.2 = none := by
  obtain ⟨w₁, -, u₂⟩ := replaces.updates
  exact u₂.contents_self

/-- Every other live slot shows what it showed. -/
theorem contents_of_ne (hlive : (w.contents slot.1 slot.2).isSome) (hne : slot ≠ old) :
    w'.contents slot.1 slot.2 = w.contents slot.1 slot.2 := by
  obtain ⟨w₁, u₁, u₂⟩ := replaces.updates
  rw [u₂.contents_of_ne fun hsame => hne (Prod.ext hsame.1 hsame.2), u₁.contents_of_ne]
  intro hsame
  rw [hsame.1, hsame.2, replaces.new_fresh] at hlive
  cases hlive

/-- No slot that was live has the new handle. -/
theorem ne_new (wf : w.WellFormed) (ht : w.pool? new.1 = some tg) (hid : new.2.pool = tg.id)
    (hlive : (w.contents slot.1 slot.2).isSome) : new.2 ≠ slot.2 := by
  intro hsame
  obtain ⟨q, hq, hshown⟩ := exists_pool?_of_contents hlive
  have hpool := ((Pool.isSome_contents (wf.pool _ q hq)).mp hshown).1
  have hat : slot.1 = new.1 :=
    wf.id_inj slot.1 new.1 q tg hq ht (by rw [← hpool, ← hsame, hid])
  rw [hat, ← hsame, replaces.new_fresh] at hlive
  cases hlive

/-- One pool counts a slot less, and one a slot more. -/
theorem live_add (hp : w.pool? i = some p) (hp' : w'.pool? i = some p') :
    p'.live + (if old.1 = i then 1 else 0) = p.live + if new.1 = i then 1 else 0 := by
  obtain ⟨w₁, u₁, u₂⟩ := replaces.updates
  obtain ⟨p₁, hp₁, -⟩ := u₁.evolves.pool i p hp
  have hfirst := u₁.live_add hp hp₁
  have hsecond := u₂.live_add hp₁ hp'
  have hsome : (w₁.contents old.1 old.2).isSome := by
    rw [u₁.contents_of_ne fun hsame => replaces.new_ne_old (Prod.ext hsame.1 hsame.2).symm]
    exact replaces.old_live
  rw [replaces.new_fresh] at hfirst
  rw [hsome] at hsecond
  simp only [Option.isSome_none, Option.isSome_some, Bool.toNat_true, Bool.toNat_false, ite_self,
    Nat.add_zero] at hfirst hsecond
  rw [hsecond, hfirst]

/-- The handle given up is stale. -/
theorem stale_old (wf : w.WellFormed) (hp' : w'.pool? old.1 = some p') :
    p'.locate old.2 = .error .stale := by
  obtain ⟨p, hp, hshown⟩ := exists_pool?_of_contents replaces.old_live
  obtain ⟨hpool, hlive⟩ := (Pool.isSome_contents (wf.pool _ p hp)).mp hshown
  obtain ⟨q, hq, hid, -, -, -, hsize, -⟩ := replaces.evolves.pool _ p hp
  rw [hp'] at hq
  cases hq
  have wf' := replaces.evolves.wellFormed wf
  have hdead : ¬ (old.2.pool = p'.id ∧ p'.LiveAt old.2.index.toNat old.2.generation) := by
    rw [← Pool.isSome_contents (wf'.pool _ p' hp'), ← contents_of_pool hp', replaces.contents_old]
    exact Bool.false_ne_true
  have hvalid : old.2 ≠ .invalid := by
    simpa [Handle.isValid] using (wf.pool _ p hp).isValid_of_pool hpool
  have hlt : old.2.index.toNat < p'.totalSlots := Nat.lt_of_lt_of_le hlive.lt hsize
  rw [Pool.locate_of_not_liveAt hdead, Pool.flawOf, if_neg hvalid,
    if_neg (not_not_intro (hpool.trans hid.symm)), if_neg (Nat.not_le.mpr hlt)]

end Replaces

end World

end ParticleStore
