/-
ParticleStore.Proofs.Migration — a population that moves to another pool.

A sender writes its particles into one buffer, a receiver makes them again in a pool of
its own, and the sender drops its particles. No length stands between the records, so
the reading is followed record by record (`Decoded`): each record is read where the one
before it ends, into a slot that none of the particles before it has taken, and what was
read before goes on showing what it showed.

What the sender drops are its own slots, each of them once (`loses_worldWithoutAll`). A
slot is given back with all its handles made stale, so a receiver that is given the same
slot again gets a handle of its own, and it makes no difference whether the sender's
particles are dropped before the buffer is read or afterwards, in which order, or
whether the receiver's pool is one of the sender's (`migrates_run`).
-/
import ParticleStore.Proofs.Batch
import ParticleStore.Proofs.Particle.RoundTrip
import Mathlib.Data.List.Dedup
import Mathlib.Data.List.Forall2

namespace ParticleStore

open ParticleStore.Action World

variable {dim spacedim : Nat} {w w₁ w₂ w' w'' : World} {i : Nat} {pl : Pool}
  {p q : Particle dim spacedim} {ps qs bs made : List (Particle dim spacedim)} {bytes : Bytes}

namespace Particle

/-! ## Dropping -/

/-- A particle loses its slot, if this is live. -/
theorem loses_worldWithout (wf : w.WellFormed) (placed : p.Placed w) :
    ∃ lost, w.Loses lost (p.worldWithout w) ∧
      ∀ slot, slot ∈ lost ↔ slot ∈ p.slots ∧ (w.contents slot.1 slot.2).isSome := by
  unfold worldWithout
  cases hs : p.slot? with
  | none => exact ⟨[], .refl w, by simp [slots_of_none hs]⟩
  | some held =>
    obtain ⟨i, h⟩ := held
    obtain ⟨pl, hp, -⟩ := placed.slot hs
    rw [slots_of_slot hs]
    simp only [hp, Option.bind_some]
    cases hflawed : pl.flawed? h with
    | none =>
      have hsome := (flawed?_eq_none_iff hp).mp hflawed
      refine ⟨[(i, h)], .of_update hsome (update_without wf hsome), fun slot => ?_⟩
      rw [List.mem_singleton]
      constructor
      · rintro rfl; exact ⟨rfl, hsome⟩
      · exact And.left
    | some cause =>
      have hnone : ¬ (w.contents i h).isSome := by
        rw [← flawed?_eq_none_iff hp, hflawed]
        exact Option.some_ne_none cause
      refine ⟨[], .of_pools rfl rfl, fun slot => ?_⟩
      rw [List.mem_singleton]
      constructor
      · intro hmem; cases hmem
      · rintro ⟨rfl, hsome⟩; exact absurd hsome hnone

/-- Particles lose the slots of theirs that are live, one by one. -/
theorem exists_loses_worldWithoutAll (wf : w.WellFormed) (placed : ∀ p ∈ ps, p.Placed w) :
    ∃ lost, w.Loses lost (worldWithoutAll w ps) ∧
      ∀ slot, slot ∈ lost ↔ slot ∈ slotsOf ps ∧ (w.contents slot.1 slot.2).isSome := by
  induction ps generalizing w with
  | nil => exact ⟨[], .refl w, by simp⟩
  | cons p rest ih =>
    obtain ⟨first, hfirst, mem_first⟩ := loses_worldWithout wf (placed p List.mem_cons_self)
    obtain ⟨later, hlater, mem_later⟩ := ih (hfirst.evolves.wellFormed wf) fun q hq =>
      (placed q (List.mem_cons_of_mem p hq)).evolves hfirst.evolves
    refine ⟨first ++ later, hfirst.trans hlater, fun slot => ?_⟩
    rw [List.mem_append, slotsOf_cons, List.mem_append, mem_later]
    by_cases hmem : slot ∈ first
    · have hheld := (mem_first slot).mp hmem
      exact ⟨fun _ => ⟨.inl hheld.1, hheld.2⟩, fun _ => .inl hmem⟩
    · -- the first particle does not lose it, so it shows what it showed when it is the others' turn
      rw [hfirst.kept slot.1 slot.2 hmem]
      constructor
      · rintro (hout | ⟨hheld, hsome⟩)
        · exact absurd hout hmem
        · exact ⟨.inr hheld, hsome⟩
      · rintro ⟨hheld | hheld, hsome⟩
        · exact absurd ((mem_first slot).mpr ⟨hheld, hsome⟩) hmem
        · exact .inr ⟨hheld, hsome⟩

/-- Particles whose slots are live lose them, each slot once, whatever the order. -/
theorem loses_worldWithoutAll (wf : w.WellFormed) (placed : ∀ p ∈ ps, p.Placed w)
    (live : ∀ slot ∈ slotsOf ps, (w.contents slot.1 slot.2).isSome) (hperm : qs.Perm ps) :
    w.Loses (slotsOf ps).dedup (worldWithoutAll w qs) := by
  obtain ⟨lost, hloses, mem_lost⟩ := exists_loses_worldWithoutAll wf fun q hq =>
    placed q (hperm.mem_iff.mp hq)
  refine hloses.perm ((List.perm_ext_iff_of_nodup hloses.nodup (List.nodup_dedup _)).mpr fun slot => ?_)
  rw [mem_lost, List.mem_dedup, (slotsOf_perm hperm).mem_iff, and_iff_left_iff_imp]
  exact live slot

end Particle

namespace Batch

open Particle

/-! ## Writing -/

/-- A population is written if each of its particles is, one record after the other. -/
theorem encode_cons_eq_ok_iff :
    encode w (p :: ps) = .ok bytes ↔
      ∃ first later, p.encode w = .ok first ∧ encode w ps = .ok later ∧ bytes = first ++ later := by
  rw [encode]
  cases p.encode w with
  | error failure => simp [bind, Except.bind]
  | ok first =>
    cases encode w ps with
    | error failure => simp [bind, Except.bind]
    | ok later => simp [bind, Except.bind, pure, Except.pure, eq_comm]

/-- The slots of particles that could be written are live. -/
theorem isSome_contents_of_encode (wf : w.WellFormed) (henc : encode w ps = .ok bytes) :
    ∀ slot ∈ slotsOf ps, (w.contents slot.1 slot.2).isSome := by
  induction ps generalizing bytes with
  | nil => simp
  | cons p rest ih =>
    obtain ⟨first, later, hfirst, hlater, -⟩ := encode_cons_eq_ok_iff.mp henc
    obtain ⟨r, hrecord, -⟩ := encode_eq_ok_iff.mp hfirst
    intro slot hslot
    rw [slotsOf_cons, List.mem_append] at hslot
    rcases hslot with hhere | hthere
    · exact isSome_contents_of_listed wf (listed_of_toRecord hrecord) slot hhere
    · exact ih hlater slot hthere

/-! ## Reading -/

/-- How many of the particles have values. -/
def withValues (w : World) (ps : List (Particle dim spacedim)) : Nat :=
  ps.countP fun p => p.propertyCount w ≠ 0

@[simp] theorem withValues_nil : withValues w ([] : List (Particle dim spacedim)) = 0 := rfl

@[simp] theorem withValues_cons :
    withValues w (p :: ps) = withValues w ps + if p.propertyCount w ≠ 0 then 1 else 0 := by
  simp [withValues, List.countP_cons]

/-- The pool at the position `i` has no view open, room for the values of all particles, and
slots of their size. -/
def Receivable (w : World) (ps : List (Particle dim spacedim)) (w₁ : World) (i : Nat) : Prop :=
  ∃ pl, w₁.pool? i = some pl ∧ pl.HasRoom (withValues w ps) ∧
    ∀ p ∈ ps, p.propertyCount w ≠ 0 → p.propertyCount w = pl.stride

/-- The particles `bs` that were made in the world `w₁` of the records that `ps` had in the
world `w`. -/
structure Decoded (w : World) (ps : List (Particle dim spacedim)) (w₁ : World) (i : Nat)
    (bs : List (Particle dim spacedim)) (w₂ : World) : Prop where
  records : List.Forall₂ (fun p q => ∃ r, p.toRecord w = .ok r ∧ q.toRecord w₂ = .ok r) ps bs
  pool_eq : ∀ q ∈ bs, q.pool = some i
  gains : w₁.Gains (slotsOf bs) w₂
  count_eq : ∀ j, ((slotsOf bs).countP fun slot => slot.1 == j) = if i = j then withValues w ps else 0
  handle_ne : ∀ q ∈ bs, ∀ j k, (w₁.contents j k).isSome → q.handle ≠ k

namespace Decoded

theorem nil (hpools : w₂.pools = w₁.pools) (hnext : w₂.nextId = w₁.nextId) :
    Decoded w ([] : List (Particle dim spacedim)) w₁ i [] w₂ where
  records := .nil
  pool_eq q hq := by cases hq
  gains := .of_pools hpools hnext
  count_eq j := by simp
  handle_ne q hq := by cases hq

/-- A particle is made first, and the others while its slot is live. -/
theorem cons {r : Record dim spacedim} (wf : w.WellFormed) (wf₁ : w₁.WellFormed)
    (hp : p.toRecord w = .ok r) (hq : q.toRecord w₂ = .ok r)
    (hmade : q.MadeNew w₁ (some i) r.values.length w₂) (later : Decoded w ps w₂ i bs w') :
    Decoded w (p :: ps) w₁ i (q :: bs) w' where
  records := by
    refine .cons ⟨r, hp, ?_⟩ later.records
    exact toRecord_of_evolves (hmade.gains.evolves.wellFormed wf₁) later.gains.evolves
      (fun slot hslot => later.gains.kept _ _ (hmade.gains.new slot hslot).2) hq
  pool_eq q' hq' := by
    rcases List.mem_cons.mp hq' with rfl | hmem
    · exact hmade.pool_eq
    · exact later.pool_eq q' hmem
  gains := hmade.gains.trans later.gains
  count_eq j := by
    rw [slotsOf_cons, List.countP_append, hmade.count_eq, later.count_eq, withValues_cons,
      ← length_of_listed wf (listed_of_toRecord hp)]
    by_cases hj : i = j
    · simp [hj, Nat.add_comm]
    · simp [hj]
  handle_ne q' hq' j k hsome := by
    rcases List.mem_cons.mp hq' with rfl | hmem
    · exact hmade.handle_ne j k hsome
    · refine later.handle_ne q' hmem j k ?_
      rwa [hmade.gains.kept j k hsome]

end Decoded

/-- There is a place for the first particle. -/
theorem Receivable.hasPlace (ready : Receivable w (p :: ps) w₁ i) :
    w₁.HasPlace (some i) (p.propertyCount w) := by
  obtain ⟨pl, hp, hroom, hstride⟩ := ready
  intro hcount
  refine ⟨i, pl, rfl, hp, (hstride p List.mem_cons_self hcount).symm, hroom.unviewed, ?_⟩
  have hle := hroom.live_add_le
  rw [withValues_cons, if_pos hcount] at hle
  omega

/-- A pool can receive part of a population once it has lost no more room than the rest takes. -/
theorem Receivable.of_evolves (ready : Receivable w ps w₁ i) (e : w₁.Evolves w₂)
    (hsubset : ∀ q ∈ qs, q ∈ ps)
    (hroom : ∀ pl pl', w₁.pool? i = some pl → w₂.pool? i = some pl' →
      pl'.live + withValues w qs ≤ pl.live + withValues w ps) : Receivable w qs w₂ i := by
  obtain ⟨pl, hp, ⟨hview, hle⟩, hstride⟩ := ready
  obtain ⟨pl', hp', -, hconfig, hreaders, hwriters, -⟩ := e.pool i pl hp
  refine ⟨pl', hp', ⟨?_, ?_⟩, fun q hq hcount => ?_⟩
  · rw [Pool.isViewed, hreaders, hwriters]
    exact hview
  · rw [hconfig]
    exact Nat.le_trans (hroom pl pl' hp hp') hle
  · rw [hstride q (hsubset q hq) hcount, Pool.stride, ← hconfig, Pool.stride]

/-- Once the first particle is made, there is a place for the others. -/
theorem Receivable.later (ready : Receivable w (p :: ps) w₁ i)
    (hmade : q.MadeNew w₁ (some i) (p.propertyCount w) w₂) : Receivable w ps w₂ i := by
  refine ready.of_evolves hmade.gains.evolves (fun q hq => List.mem_cons_of_mem p hq) ?_
  intro pl pl' hp hp'
  rw [hmade.gains.live_eq i pl pl' hp hp', hmade.count_eq, withValues_cons]
  simp only [true_and]
  omega

/-- A pool that can receive a population can still receive it when slots have been lost. -/
theorem Receivable.of_loses {lost : List HeldSlot} (ready : Receivable w ps w₁ i)
    (hloses : w₁.Loses lost w₂) : Receivable w ps w₂ i := by
  refine ready.of_evolves hloses.evolves (fun q hq => hq) fun pl pl' hp hp' => ?_
  rw [hloses.live_eq i pl pl' hp hp']
  omega

/-- The records of a population that can be received are read one after the other. -/
theorem run_decodeOnto_encode (wf : w.WellFormed) (wf₁ : w₁.WellFormed)
    (made : List (Particle dim spacedim)) (henc : encode w ps = .ok bytes)
    (ready : Receivable w ps w₁ i) :
    ∃ bs w₂, (decodeOnto (some i) made bytes).run w₁ = (⟨.ok (made ++ bs), []⟩, w₂) ∧
      Decoded w ps w₁ i bs w₂ := by
  induction ps generalizing w₁ made bytes with
  | nil =>
    cases henc
    exact ⟨[], { w₁ with events := w₁.events ++ [.batchDecoded made.length] },
      by rw [run_decodeOnto_nil, List.append_nil], .nil rfl rfl⟩
  | cons p rest ih =>
    obtain ⟨first, later, hfirst, hlater, rfl⟩ := encode_cons_eq_ok_iff.mp henc
    obtain ⟨r, hrecord, hdecode⟩ := exists_record_of_encode hfirst
    have hcount : r.values.length = p.propertyCount w :=
      length_of_listed wf (listed_of_toRecord hrecord)
    obtain ⟨q, w₂, hexec, hq, hmade⟩ :=
      exec_ofRecord_of_hasPlace wf₁ r (hcount ▸ ready.hasPlace)
    obtain ⟨bs, w₃, hrun, decoded⟩ :=
      ih (hmade.gains.evolves.wellFormed wf₁) (made ++ [q]) hlater (ready.later (hcount ▸ hmade))
    refine ⟨q :: bs, w₃, ?_, .cons wf wf₁ hrecord hq hmade decoded⟩
    rw [run_decodeOnto_ok (hdecode later), hexec]
    simpa using hrun

/-! ## Migrating -/

/-- What a receiver has read in the world `w₁`, of what a sender has written in the world `w`. -/
structure Received (w : World) (ps : List (Particle dim spacedim)) (w₁ : World) (i : Nat)
    (bs : List (Particle dim spacedim)) (w₂ : World) : Prop where
  /-- As many particles, in the same order, that show the same. -/
  same : List.Forall₂ (fun p q => p.SameContents w w₂ q) ps bs
  pool_eq : ∀ q ∈ bs, q.pool = some i
  evolves : w₁.Evolves w₂
  kept : ∀ j k, (w₁.contents j k).isSome → w₂.contents j k = w₁.contents j k
  /-- The receiver's pool has a slot more for each particle with values, and no other pool has. -/
  live_eq : ∀ j pl pl', w₁.pool? j = some pl → w₂.pool? j = some pl' →
    pl'.live = pl.live + if i = j then withValues w ps else 0
  /-- No two particles have one slot, and none has a slot that was live. -/
  handles_nodup : ((bs.map (·.handle)).filter (·.isValid)).Nodup
  handle_ne : ∀ q ∈ bs, ∀ j k, (w₁.contents j k).isSome → q.handle ≠ k

/-- Particles of one pool hold the slots of their handles. -/
theorem slotsOf_eq_map (hpool : ∀ q ∈ bs, q.pool = some i) :
    slotsOf bs = ((bs.map (·.handle)).filter (·.isValid)).map fun h => (i, h) := by
  induction bs with
  | nil => rfl
  | cons q rest ih =>
    have hq : q.pool = some i := hpool q List.mem_cons_self
    rw [slotsOf_cons, ih fun q' hmem => hpool q' (List.mem_cons_of_mem q hmem), List.map_cons]
    by_cases hvalid : q.handle.isValid = true
    · rw [slots_of_pool hq hvalid, List.filter_cons_of_pos hvalid]
      rfl
    · rw [slots_of_invalid (by simpa [Handle.isValid] using hvalid), List.filter_cons_of_neg hvalid]
      rfl

namespace Decoded

variable (decoded : Decoded w ps w₁ i bs w₂)

include decoded

theorem received (wf : w.WellFormed) (wf₁ : w₁.WellFormed) : Received w ps w₁ i bs w₂ where
  same := decoded.records.imp fun _ _ ⟨_, hp, hq⟩ =>
    sameContents_of_toRecord wf (decoded.gains.evolves.wellFormed wf₁) hp hq
  pool_eq := decoded.pool_eq
  evolves := decoded.gains.evolves
  kept := decoded.gains.kept
  live_eq j pl pl' hp hp' := by rw [decoded.gains.live_eq j pl pl' hp hp', decoded.count_eq]
  handles_nodup := by
    have hnodup := decoded.gains.nodup
    rw [slotsOf_eq_map decoded.pool_eq] at hnodup
    exact hnodup.of_map
  handle_ne := decoded.handle_ne

/-- What was received stays while slots are lost that were live before. -/
theorem same_of_loses {lost : List HeldSlot} (wf : w.WellFormed) (wf₁ : w₁.WellFormed)
    (live : ∀ slot ∈ lost, (w₁.contents slot.1 slot.2).isSome) (hloses : w₂.Loses lost w') :
    List.Forall₂ (fun p q => p.SameContents w w' q) ps bs := by
  have wf₂ := decoded.gains.evolves.wellFormed wf₁
  obtain ⟨hlength, hsame⟩ := List.forall₂_iff_zip.mp (decoded.received wf wf₁).same
  refine List.forall₂_iff_zip.mpr ⟨hlength, fun {p q} hzip => ?_⟩
  have hq : q ∈ bs := (List.of_mem_zip hzip).2
  refine (hsame hzip).stable wf₂ hloses.evolves fun slot hslot => ?_
  refine hloses.kept _ _ fun hlost => ?_
  have hsome := live slot hlost
  rw [(decoded.gains.new slot (List.mem_flatMap.mpr ⟨q, hq, hslot⟩)).1] at hsome
  cases hsome

end Decoded

/-- What was written of the particles `ps` in the world `w` can be read into the pool at the
position `i`, before the particles are dropped or after that. -/
structure Migrates (w : World) (ps : List (Particle dim spacedim)) (bytes : Bytes) (i : Nat) :
    Prop where
  /-- The particles written are dropped last, in any order. They lose their slots, each of them
  once, and the particles read go on showing the same. -/
  drop_last : ∃ bs w₁, (decode (some i) bytes).run w = (⟨.ok bs, []⟩, w₁) ∧
    Received w ps w i bs w₁ ∧
      ∀ qs, qs.Perm ps → ∃ w₂, (dropAll qs : Action ParticleError Unit).exec w₁ = (.ok (), w₂) ∧
        w₁.Loses (slotsOf ps).dedup w₂ ∧ List.Forall₂ (fun p q => p.SameContents w w₂ q) ps bs
  /-- They are dropped first, in any order. -/
  drop_first : ∀ qs, qs.Perm ps →
    ∃ w₁, (dropAll qs : Action ParticleError Unit).exec w = (.ok (), w₁) ∧
      w.Loses (slotsOf ps).dedup w₁ ∧
        ∃ bs w₂, (decode (some i) bytes).run w₁ = (⟨.ok bs, []⟩, w₂) ∧ Received w ps w₁ i bs w₂

theorem migrates_of_encode (wf : w.WellFormed) (placed : ∀ p ∈ ps, p.Placed w)
    (henc : encode w ps = .ok bytes) (ready : Receivable w ps w i) : Migrates w ps bytes i where
  drop_last := by
    have live := isSome_contents_of_encode wf henc
    obtain ⟨bs, w₁, hrun, decoded⟩ := run_decodeOnto_encode wf wf [] henc ready
    have e := decoded.gains.evolves
    have wf₁ := e.wellFormed wf
    have placed₁ : ∀ p ∈ ps, p.Placed w₁ := fun p hp => (placed p hp).evolves e
    refine ⟨bs, w₁, hrun, decoded.received wf wf, fun qs hperm => ⟨worldWithoutAll w₁ qs, ?_⟩⟩
    have hloses : w₁.Loses (slotsOf ps).dedup (worldWithoutAll w₁ qs) :=
      loses_worldWithoutAll wf₁ placed₁
        (fun slot hslot => by rw [decoded.gains.kept _ _ (live slot hslot)]; exact live slot hslot)
        hperm
    exact ⟨(exec_dropAll wf₁ fun q hq => placed₁ q (hperm.mem_iff.mp hq)).1, hloses,
      decoded.same_of_loses wf wf (fun slot hslot => live slot (List.mem_dedup.mp hslot)) hloses⟩
  drop_first qs hperm := by
    have hloses := loses_worldWithoutAll wf placed (isSome_contents_of_encode wf henc) hperm
    have wf₁ := hloses.evolves.wellFormed wf
    obtain ⟨bs, w₂, hrun, decoded⟩ := run_decodeOnto_encode wf wf₁ [] henc (ready.of_loses hloses)
    exact ⟨worldWithoutAll w qs, (exec_dropAll wf fun q hq => placed q (hperm.mem_iff.mp hq)).1,
      hloses, bs, w₂, hrun, decoded.received wf wf₁⟩

end Batch

namespace Session

open Batch

/-- **A population migrates.** After any run of steps any of the particles there are, if they can
be written, are read into any pool that can receive them, and none is lost or shared. -/
theorem migrates_run (steps : List (Step dim spacedim)) (ps : List (Particle dim spacedim))
    (bytes : Bytes) (i : Nat)
    (hps : ∀ p ∈ ps, p ∈ (run ({} : Session dim spacedim) steps).2.particles.values)
    (henc : encode (run ({} : Session dim spacedim) steps).2.world ps = .ok bytes)
    (ready : Receivable (run ({} : Session dim spacedim) steps).2.world ps
      (run ({} : Session dim spacedim) steps).2.world i) :
    Migrates (run ({} : Session dim spacedim) steps).2.world ps bytes i :=
  have reached := sound_reached steps
  migrates_of_encode reached.wellFormed (fun p hp => reached.2.placed p (hps p hp)) henc ready

/-- Of four particles one has no values and two lie in the pool that all of them move to. -/
theorem migrates_run_of_mixed :
    let steps : List (Step 1 1) :=
      [.makePool { stride := 1 }, .makePool { stride := 1, maxSlots := some 5 }, .make 0, .make 1,
        .make 2, .make 3, .setId 1 ⟨7⟩, .moveTo 0 0, .setValues 0 [⟨1⟩], .moveTo 2 1,
        .setValues 2 [⟨2⟩], .moveTo 3 1, .setValues 3 [⟨3⟩]]
    let s := (run {} steps).2
    ∃ bytes, encode s.world s.particles.values = .ok bytes ∧
      Receivable s.world s.particles.values s.world 1 ∧
      withValues s.world s.particles.values = 3 ∧
      Migrates s.world s.particles.values bytes 1 := by
  intro steps s
  have ready : Receivable s.world s.particles.values s.world 1 := by
    refine ⟨_, rfl, ⟨rfl, by decide⟩, ?_⟩
    decide
  exact ⟨_, rfl, ready, rfl, migrates_run steps _ _ 1 (fun _ hp => hp) rfl ready⟩

end Session

end ParticleStore
