/-
ParticleStore.Proofs.World.Effects — what one call can do to the pools.

A call changes one pool at most, or puts a new one behind the ones there are. `Effect` says
so once, with everything that later proofs need: a slot is issued only while no view is
open, a release changes nothing but the table, and every other call leaves the table
alone. Whether an invariant is kept by all calls is then a question of five cases
(`effect_call`), and no proof above this module looks inside a call.
-/
import ParticleStore.Proofs.World.Calls

namespace ParticleStore

namespace Pool

variable {p p' : Pool} {h : Handle} {values : List Scalar}

/-- The pool `p'` is `p` with the same table of slots, and the same ones to be used again. -/
structure SameTable (p p' : Pool) : Prop where
  wellFormed : p'.WellFormed
  id_eq : p'.id = p.id
  config_eq : p'.config = p.config
  slots_eq : p'.slots = p.slots
  free_eq : p'.free = p.free

/-- The pools count the same views, and the scalars stay while one is open. -/
structure SameViews (p p' : Pool) : Prop where
  readers_eq : p'.readers = p.readers
  writers_eq : p'.writers = p.writers
  scalars_eq : p.isViewed = true → p'.scalars = p.scalars

theorem SameTable.totalSlots_eq (same : p.SameTable p') : p'.totalSlots = p.totalSlots :=
  congrArg List.length same.slots_eq

/-- The slots that are live are counted in the table. -/
theorem SameTable.live_eq (same : p.SameTable p') (wf : p.WellFormed) : p'.live = p.live := by
  rw [same.wellFormed.live_eq, same.slots_eq, wf.live_eq]

theorem SameTable.counts (wf : p.WellFormed) (readers writers reserved : Nat) :
    p.SameTable { p with readers, writers, reserved } :=
  ⟨wellFormed_counts wf _ _ _, rfl, rfl, rfl, rfl⟩

theorem SameTable.withBlock {i : Nat} (wf : p.WellFormed) (hi : p.Spans i)
    (hv : values.length = p.stride) : p.SameTable (p.withBlock i values) :=
  ⟨wellFormed_withBlock wf hi hv, rfl, rfl, rfl, rfl⟩

/-- Writing in a pool that no view is open on. -/
theorem SameViews.withBlock (i : Nat) (hview : p.isViewed = false) :
    p.SameViews (p.withBlock i values) :=
  ⟨rfl, rfl, fun hviewed => by rw [hview] at hviewed; cases hviewed⟩

/-- As many values are written as a slot holds. -/
theorem length_of_setSlotValues {i : Nat} (hset : p.setSlotValues i values = .ok p') :
    values.length = p.stride := by
  by_contra hv
  have hrequire : (Attempt.require (values.length = p.stride)
      (.valueCount values.length p.stride) : Attempt PoolError Unit) =
        Attempt.halt (.valueCount values.length p.stride) := if_neg hv
  simp only [setSlotValues, hrequire] at hset
  by_cases hi : i * p.stride + p.stride ≤ p.scalars.length
  · simp [Attempt.require, hi, Attempt.halt, bind, Except.bind] at hset
  · simp [Attempt.require, hi, Attempt.halt, bind, Except.bind] at hset

theorem length_of_setValues (hset : p.setValues h values = .ok p') : values.length = p.stride := by
  unfold setValues at hset
  cases hwritable : p.writable h with
  | error failure =>
    rw [hwritable] at hset
    cases hset
  | ok i =>
    rw [hwritable] at hset
    exact length_of_setSlotValues hset

/-- Values are written where no view is open. -/
theorem setValues_keeps (wf : p.WellFormed) (hset : p.setValues h values = .ok p') :
    p.SameTable p' ∧ p.SameViews p' := by
  have hv := length_of_setValues hset
  rw [setValues_eq wf hv, Attempt.decided_eq_ok_iff, Option.or_eq_none_iff,
    viewed?_eq_none_iff] at hset
  obtain ⟨⟨hgood, hview⟩, rfl⟩ := hset
  exact ⟨.withBlock wf (wf.spans (liveAt_of_flawed? wf hgood).lt) hv, .withBlock _ hview⟩

theorem overwrite_keeps {after : List Scalar} (wf : p.WellFormed)
    (hwrite : p.overwrite h values = .ok (after, p')) : p.SameTable p' ∧ p.SameViews p' := by
  rw [overwrite_eq wf, Attempt.decided_eq_ok_iff, Option.or_eq_none_iff,
    viewed?_eq_none_iff] at hwrite
  obtain ⟨⟨hgood, hview⟩, hresult⟩ := hwrite
  cases hresult
  have hspans := wf.spans (liveAt_of_flawed? wf hgood).lt
  exact ⟨.withBlock wf hspans (by rw [length_overlay, length_block hspans]), .withBlock _ hview⟩

/-- A write through a view changes scalars only. -/
theorem overwriteAt_keeps {position : Nat} {after : List Scalar} (wf : p.WellFormed)
    (hwrite : p.overwriteAt position values = .ok (after, p')) :
    p.Spans position ∧ after = overlay values (p.block position) ∧ p' = p.withBlock position after ∧
      p.SameTable p' := by
  by_cases hspans : p.Spans position
  · rw [overwriteAt_eq hspans] at hwrite
    cases hwrite
    exact ⟨hspans, rfl, rfl,
      .withBlock wf hspans (by rw [length_overlay, length_block hspans])⟩
  · obtain ⟨fault, hfault⟩ := overwriteAt_of_not_spans values hspans
    rw [hfault] at hwrite
    cases hwrite

theorem openView_keeps {writable : Bool} {v : View} (wf : p.WellFormed)
    (hopen : p.openView h writable = .ok (v, p')) : p.SameTable p' := by
  rw [openView_eq wf, Attempt.decided_eq_ok_iff] at hopen
  obtain ⟨-, hresult⟩ := hopen
  cases hresult
  unfold viewOpened
  split
  · exact .counts wf _ _ _
  · exact .counts wf _ _ _

theorem closeView_keeps (wf : p.WellFormed) (v : View) : p.SameTable (p.closeView v) := by
  unfold closeView
  split
  · exact .counts wf _ _ _
  · exact .counts wf _ _ _

theorem reserve_keeps (wf : p.WellFormed) (n : Nat) :
    p.SameTable (p.reserve n) ∧ p.SameViews (p.reserve n) := by
  obtain ⟨reserved, heq⟩ := p.reserve_eq n
  rw [heq]
  exact ⟨.counts wf _ _ _, rfl, rfl, fun _ => rfl⟩

end Pool

namespace World

variable {w w' : World} {quiet : Bool} {i j : Nat} {p p' : Pool} {h : Handle}

/-- What a call can do to the pools, and the slots that it issues and releases. A quiet call has
nothing to do with views. -/
inductive Effect (w : World) (quiet : Bool) : List SlotEvent → World → Prop
  | idle {w' : World} : w'.pools = w.pools → Effect w quiet [] w'
  | made {w' : World} {p : Pool} : w'.pools = w.pools ++ [p] → p.slots = [] → p.readers = 0 →
      p.writers = 0 → Effect w quiet [] w'
  | changed {w' : World} {i : Nat} {p p' : Pool} : w.pool? i = some p →
      w'.pools = w.pools.set i p' → p.SameTable p' → (quiet = true → p.SameViews p') →
      Effect w quiet [] w'
  | issued {w' : World} {i : Nat} {p p' : Pool} {values : List Scalar} : w.pool? i = some p →
      w'.pools = w.pools.set i p' → p.isViewed = false →
      p.Update p.nextHandle (some values) p' → p'.slots = p.taken.slots →
      Effect w quiet [.issued i p.nextHandle] w'
  | released {w' : World} {i : Nat} {p : Pool} {h : Handle} : w.pool? i = some p →
      w'.pools = w.pools.set i (p.released h) → p.flawed? h = none →
      Effect w quiet [.released i h] w'

/-- The pool at a position after one pool has changed. -/
theorem pool?_of_set (hp : w.pool? i = some p) (hpools : w'.pools = w.pools.set i p') :
    w'.pool? j = if j = i then some p' else w.pool? j := by
  rw [pool?, hpools, pool?]
  split
  · rename_i hj
    rw [hj]
    exact List.getElem?_set_self (lt_of_pool? hp)
  · rename_i hj
    exact List.getElem?_set_ne (Ne.symm hj)

/-- An operation on one pool that leaves its table alone. -/
theorem effect_onPool {α : Type} {f : Pool → Attempt PoolError (α × Pool)} (wf : w.WellFormed)
    (hf : ∀ p a p', p.WellFormed → f p = .ok (a, p') →
      p.SameTable p' ∧ (quiet = true → p.SameViews p')) :
    ((onPool i f).exec w).2.WellFormed ∧ w.Effect quiet [] ((onPool i f).exec w).2 := by
  rw [exec_onPool]
  cases hp : w.pool? i with
  | none => exact ⟨wf, .idle rfl⟩
  | some p =>
    simp only
    cases hresult : f p with
    | error failure => exact ⟨wf, .idle rfl⟩
    | ok result =>
      obtain ⟨htable, hviews⟩ := hf p result.1 result.2 (wf.pool i p hp) hresult
      exact ⟨wf.setPool hp htable.wellFormed htable.id_eq, .changed hp rfl htable hviews⟩

/-- A call that takes a slot. -/
theorem effect_issued {cause : Option PoolError} (wf : w.WellFormed)
    (hp : w.pool? i = some p) (hview : cause = none → p.isViewed = false)
    (hupdate : cause = none → ∃ values, p.Update p.nextHandle (some values) p')
    (hslots : p'.slots = p.taken.slots) :
    (told (fun h => [.issued i h])
        (Action.decided cause w p.nextHandle (w.setPool i p'))).2.WellFormed ∧
      w.Effect quiet
        (told (fun h => [.issued i h]) (Action.decided cause w p.nextHandle (w.setPool i p'))).1
        (told (fun h => [.issued i h]) (Action.decided cause w p.nextHandle (w.setPool i p'))).2 := by
  cases cause with
  | some e => exact ⟨wf, .idle rfl⟩
  | none =>
    obtain ⟨values, u⟩ := hupdate rfl
    exact ⟨wf.setPool hp u.wellFormed u.id_eq, .issued hp rfl (hview rfl) u hslots⟩

theorem effect_allocate (wf : w.WellFormed) (i : Nat) :
    (w.call (.allocate i)).2.WellFormed ∧
      w.Effect quiet (w.call (.allocate i)).1 (w.call (.allocate i)).2 := by
  rw [call_allocate]
  cases hp : w.pool? i with
  | none =>
    rw [World.allocate, told_onPool_of_none _ hp]
    exact ⟨wf, .idle rfl⟩
  | some p =>
    have wfp := wf.pool i p hp
    rw [exec_allocate hp wfp]
    refine effect_issued wf hp (fun hnone => ?_) (fun hnone => ?_) rfl
    · rw [Option.or_eq_none_iff, Pool.viewed?_eq_none_iff] at hnone
      exact hnone.1
    · rw [Option.or_eq_none_iff, Pool.viewed?_eq_none_iff, Pool.full?_eq_none_iff] at hnone
      exact ⟨_, Pool.update_taken wfp hnone.1 hnone.2⟩

theorem effect_duplicate (wf : w.WellFormed) (i : Nat) (h : Handle) :
    (w.call (.duplicate i h)).2.WellFormed ∧
      w.Effect quiet (w.call (.duplicate i h)).1 (w.call (.duplicate i h)).2 := by
  rw [call_duplicate]
  cases hp : w.pool? i with
  | none =>
    rw [World.duplicate, told_onPool_of_none _ hp]
    exact ⟨wf, .idle rfl⟩
  | some p =>
    have wfp := wf.pool i p hp
    rw [exec_duplicate hp wfp]
    refine effect_issued wf hp (fun hnone => ?_) (fun hnone => ?_) rfl
    · rw [Option.or_eq_none_iff, Pool.viewed?_eq_none_iff] at hnone
      exact hnone.1
    · rw [Option.or_eq_none_iff, Option.or_eq_none_iff, Pool.viewed?_eq_none_iff,
        Pool.full?_eq_none_iff] at hnone
      obtain ⟨hview, hgood, hroom⟩ := hnone
      have hlen := Pool.length_block_of_flawed? wfp hgood
      exact ⟨_, Pool.update_filled wfp hview hroom hlen⟩

theorem effect_release (wf : w.WellFormed) (i : Nat) (h : Handle) :
    (w.call (.release i h)).2.WellFormed ∧
      w.Effect quiet (w.call (.release i h)).1 (w.call (.release i h)).2 := by
  rw [call_release]
  cases hp : w.pool? i with
  | none =>
    rw [World.release, told_onPool_of_none _ hp]
    exact ⟨wf, .idle rfl⟩
  | some p =>
    have wfp := wf.pool i p hp
    rw [exec_release hp wfp, without_eq hp]
    cases hgood : p.flawed? h with
    | some e => exact ⟨wf, .idle rfl⟩
    | none =>
      have u := Pool.update_released wfp (Pool.flawed?_eq_none_iff_contents.mp hgood)
      exact ⟨wf.setPool hp u.wellFormed u.id_eq, .released hp rfl hgood⟩

theorem effect_reserve (wf : w.WellFormed) (i n : Nat) :
    (w.reserve i n).WellFormed ∧ w.Effect quiet [] (w.reserve i n) := by
  cases hp : w.pool? i with
  | none =>
    have hsame : w.reserve i n = w := by rw [reserve, hp]
    rw [hsame]
    exact ⟨wf, .idle rfl⟩
  | some p =>
    obtain ⟨events, -, heq⟩ := reserve_eq hp n
    obtain ⟨htable, hviews⟩ := Pool.reserve_keeps (wf.pool i p hp) n
    rw [heq]
    exact ⟨(wf.setPool hp htable.wellFormed htable.id_eq).of_pools rfl rfl,
      .changed hp rfl htable fun _ => hviews⟩

theorem effect_addPool (wf : w.WellFormed) (config : PoolConfig) :
    (w.addPool config).2.WellFormed ∧ w.Effect quiet [] (w.addPool config).2 := by
  refine ⟨wf.addPool config, ?_⟩
  obtain ⟨events, -, heq⟩ := addPool_eq w config
  obtain ⟨reserved, hnew⟩ := (Pool.empty ⟨w.nextId⟩ config).reserve_eq config.initialReservation
  rw [heq]
  refine .made (p := w.newPool config) rfl ?_ ?_ ?_ <;> rw [newPool, hnew] <;> rfl

/-- **What one call can do.** -/
theorem effect_call (wf : w.WellFormed) (c : PoolCall) :
    (w.call c).2.WellFormed ∧ w.Effect c.isQuiet (w.call c).1 (w.call c).2 := by
  cases c with
  | makePool config => exact effect_addPool wf config
  | takeId =>
    exact ⟨⟨wf.pool, wf.id_inj, fun i p hp => Nat.lt_succ_of_lt (wf.id_lt i p hp),
      Nat.succ_pos _⟩, .idle rfl⟩
  | reserve i n => exact effect_reserve wf i n
  | allocate i => exact effect_allocate wf i
  | duplicate i h => exact effect_duplicate wf i h
  | release i h => exact effect_release wf i h
  | setValues i h values =>
    refine effect_onPool wf fun p a p' wfp hresult => ?_
    cases hset : p.setValues h values with
    | error failure =>
      rw [hset] at hresult
      cases hresult
    | ok p₁ =>
      rw [hset] at hresult
      cases hresult
      have hkept := Pool.setValues_keeps wfp hset
      exact ⟨hkept.1, fun _ => hkept.2⟩
  | overwrite i h values =>
    refine effect_onPool wf fun p a p' wfp hwrite => ?_
    have hkept := Pool.overwrite_keeps wfp hwrite
    exact ⟨hkept.1, fun _ => hkept.2⟩
  | openView i h writable =>
    exact effect_onPool wf fun p a p' wfp hopen => ⟨Pool.openView_keeps wfp hopen, Bool.noConfusion⟩
  | overwriteAt i position values =>
    exact effect_onPool wf fun p a p' wfp hwrite =>
      ⟨(Pool.overwriteAt_keeps wfp hwrite).2.2.2, Bool.noConfusion⟩
  | closeView i v =>
    refine effect_onPool wf fun p a p' wfp hclose => ?_
    cases hclose
    exact ⟨Pool.closeView_keeps wfp v, Bool.noConfusion⟩
  | note e => exact ⟨wf.of_pools rfl rfl, .idle rfl⟩

end World

end ParticleStore
