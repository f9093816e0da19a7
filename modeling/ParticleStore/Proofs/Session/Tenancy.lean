/-
ParticleStore.Proofs.Session.Tenancy — particles that live in a world together.

`Tenancy sole w ps` says how particles live in a world: the pools are well-formed, every
particle is placed, and where the particles are the sole holders of slots, the live
slots are theirs, one each, and no release has ever failed. It is about a list of
particles, in any order, so that it also says what holds in the middle of a step, when
a particle is in hand and under no key.
-/
import ParticleStore.Proofs.Batch

namespace ParticleStore

open ParticleStore.Action Particle World

variable {dim spacedim : Nat} {sole : Prop} {w w' : World} {i key dest : Nat} {p p' : Pool}
  {ps qs held held' : List (Particle dim spacedim)} {q q' : Particle dim spacedim}

/-- How particles live in a world. -/
structure Tenancy (sole : Prop) (w : World) (ps : List (Particle dim spacedim)) : Prop where
  wellFormed : w.WellFormed
  placed : ∀ q ∈ ps, q.Placed w
  owns : sole → w.Owns (slotsOf ps)
  quiet : sole → ∀ e ∈ w.events, e.level ≠ .warn

namespace Tenancy

theorem empty : Tenancy sole {} ([] : List (Particle dim spacedim)) where
  wellFormed := wellFormed_empty
  placed := by simp
  owns _ := ⟨by simp, by simp, by simp [pool?]⟩
  quiet := by simp

theorem perm (t : Tenancy sole w ps) (hperm : ps.Perm qs) : Tenancy sole w qs where
  wellFormed := t.wellFormed
  placed q hq := t.placed q (hperm.mem_iff.mpr hq)
  owns hsole := (t.owns hsole).perm (slotsOf_perm hperm)
  quiet := t.quiet

/-- Some particles trade, and the others look on. -/
theorem trade (held held' : List (Particle dim spacedim)) (t : Tenancy sole w (held ++ ps))
    (htrade : Trade w (slotsOf held) w' (slotsOf held')) (hplaced : ∀ q ∈ held', q.Placed w') :
    Tenancy sole w' (held' ++ ps) := by
  have e := htrade.evolves
  have howns : sole → w'.Owns (slotsOf held' ++ slotsOf ps) ∧
      ∀ e ∈ w'.events, e.level ≠ .warn := by
    intro hsole
    have howns := t.owns hsole
    rw [slotsOf_append] at howns
    obtain ⟨howns', -, hquiet⟩ := htrade.owns howns
    refine ⟨howns', fun e he => ?_⟩
    rcases hquiet e he with hold | hlevel
    · exact t.quiet hsole e hold
    · exact hlevel
  refine ⟨e.wellFormed t.wellFormed, fun q hq => ?_, fun hsole => ?_, fun hsole => (howns hsole).2⟩
  · rcases List.mem_append.mp hq with hin | hout
    · exact hplaced q hin
    · exact (t.placed q (List.mem_append_right _ hout)).evolves e
  · rw [slotsOf_append]
    exact (howns hsole).1

/-- Who looks on keeps what it showed. -/
theorem frame {slots : List HeldSlot} (held : List (Particle dim spacedim))
    (t : Tenancy True w (held ++ ps))
    (htrade : Trade w (slotsOf held) w' slots) (hq : q ∈ ps) :
    ∀ slot ∈ q.slots, w'.contents slot.1 slot.2 = w.contents slot.1 slot.2 := by
  have howns := t.owns trivial
  rw [slotsOf_append] at howns
  obtain ⟨-, hframe, -⟩ := htrade.owns howns
  exact fun slot hslot => hframe slot (List.mem_flatMap.mpr ⟨q, hq, hslot⟩)

/-- One particle comes out of another. -/
theorem made (t : Tenancy sole w (q :: ps)) (hmade : q'.MadeFrom q.slots w w') :
    Tenancy sole w' (q' :: ps) := by
  refine t.trade [q] [q'] ?_ fun r hr => ?_
  · simpa using hmade.trade
  · rw [List.mem_singleton.mp hr]
    exact hmade.placed

/-- One particle comes out of nothing. -/
theorem born (t : Tenancy sole w ps) (hmade : q.MadeFrom [] w w') : Tenancy sole w' (q :: ps) := by
  refine t.trade [] [q] ?_ fun r hr => ?_
  · simpa using hmade.trade
  · rw [List.mem_singleton.mp hr]
    exact hmade.placed

/-- A particle goes away. -/
theorem dropped (t : Tenancy sole w (q :: ps)) : Tenancy sole (q.worldWithout w) ps := by
  have htrade := trade_without [] t.wellFormed (t.placed q List.mem_cons_self)
  refine t.trade [q] [] ?_ fun r hr => ?_
  · simpa using htrade
  · cases hr

/-- A particle is moved out of its place: the slot goes with one of two. -/
theorem taken (t : Tenancy sole w (q :: ps)) :
    Tenancy sole w (q.take.1 :: q.take.2 :: ps) := by
  have hq := t.placed q List.mem_cons_self
  have hleft : q.take.2.slots = [] := slots_of_invalid rfl
  refine t.trade [q] [q.take.1, q.take.2] ?_ fun r hr => ?_
  · have hmoved : q.take.1.slots = q.slots := slots_congr rfl rfl
    simp only [slotsOf_cons, slotsOf_nil, hmoved, hleft, List.append_nil]
    exact .refl w _
  · rcases List.mem_cons.mp hr with rfl | hr
    · exact hq.congr rfl rfl
    · rw [List.mem_singleton.mp hr]
      exact placed_of_invalid rfl hq.pool?

/-- A pool changes, and the same handles show something. -/
theorem setPool (t : Tenancy sole w ps) (hp : w.pool? i = some p) (alike : p.Alike p') :
    Tenancy sole (w.setPool i p') ps := by
  refine ⟨t.wellFormed.setPool hp alike.wellFormed alike.id_eq, fun q hq => ?_,
    fun hsole => (t.owns hsole).setPool hp alike, t.quiet⟩
  refine ⟨fun j hj => ?_, (t.placed q hq).handle⟩
  obtain ⟨pl, hpl, hhandle⟩ := (t.placed q hq).pool j hj
  by_cases heq : j = i
  · subst heq
    rw [hp] at hpl
    cases hpl
    exact ⟨p', pool?_setPool_self (by simp [hp]),
      fun hvalid => (hhandle hvalid).trans alike.id_eq.symm⟩
  · exact ⟨pl, (pool?_setPool_of_ne heq).trans hpl, hhandle⟩

/-- Events that are no warnings, and ids taken, make no difference. -/
theorem noted (t : Tenancy sole w ps) {events : List Event} (hquiet : ∀ e ∈ events, e.level ≠ .warn) :
    Tenancy sole { w with events := w.events ++ events } ps := by
  refine ⟨t.wellFormed.of_pools rfl rfl, fun q hq => (t.placed q hq).evolves (.of_pools rfl rfl),
    fun hsole => (t.owns hsole).of_pools rfl, fun hsole e he => ?_⟩
  rcases List.mem_append.mp he with hold | hnew
  · exact t.quiet hsole e hold
  · exact hquiet e hnew

/-- A new pool is nobody's. -/
theorem addPool (t : Tenancy sole w ps) (config : PoolConfig) :
    Tenancy sole (w.addPool config).2 ps := by
  have wf := t.wellFormed.addPool config
  obtain ⟨events, hquiet, heq⟩ := addPool_eq w config
  rw [heq] at wf ⊢
  refine ⟨wf, fun q hq => ⟨fun j hj => ?_, (t.placed q hq).handle⟩, fun hsole => ?_,
    fun hsole e he => ?_⟩
  · obtain ⟨pl, hpl, hhandle⟩ := (t.placed q hq).pool j hj
    refine ⟨pl, ?_, hhandle⟩
    rw [pool?_append rfl, if_neg (Nat.ne_of_lt (lt_of_pool? hpl))]
    exact hpl
  · exact (t.owns hsole).addPool rfl (newPool_live config)
  · rcases List.mem_append.mp he with hold | hnew
    · exact t.quiet hsole e hold
    · exact hquiet e hnew

theorem takeId (t : Tenancy sole w ps) : Tenancy sole w.takeId.2 ps where
  wellFormed := ⟨t.wellFormed.pool, t.wellFormed.id_inj,
    fun i p hp => Nat.lt_succ_of_lt (t.wellFormed.id_lt i p hp), Nat.succ_pos _⟩
  placed q hq := ⟨(t.placed q hq).pool, (t.placed q hq).handle⟩
  owns hsole := (t.owns hsole).of_pools rfl
  quiet := t.quiet

/-- Where particles are not the sole holders, pools may evolve on their own. -/
theorem evolved (t : Tenancy sole w ps) (hsole : ¬ sole) (e : w.Evolves w') : Tenancy sole w' ps where
  wellFormed := e.wellFormed t.wellFormed
  placed q hq := (t.placed q hq).evolves e
  owns h := absurd h hsole
  quiet h := absurd h hsole

end Tenancy

end ParticleStore
