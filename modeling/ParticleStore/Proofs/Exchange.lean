/-
ParticleStore.Proofs.Exchange — particles brought up to date in place.

An owner writes the records of its particles into one buffer, and a receiver that has a copy of
each reads them, one update for each copy, through the one buffer. A source and its target are
a pair of keys. Each update reads the record at the front of the buffer into the slot that its
target has already (`perform_update_written`), so that the next update finds the next record
there. Sources and targets may lie in one pool: what an update writes is seen through
its target's slot only, and no pool's ledger changes, so the targets that follow can be
written to as before (`Updated.cons`, `run_updates`).

A target with another count than its source stops the exchange where its record begins.
-/
import ParticleStore.Proofs.Framing
import ParticleStore.Proofs.Particle.Writing
import ParticleStore.Proofs.Session.Sharing

namespace ParticleStore

open Particle StepM World

variable {dim spacedim : Nat} {w' : World} {b key : Nat} {p q : Particle dim spacedim}
  {bytes first rest : Bytes} {s s₀ s' s'' : Session dim spacedim} {keys : List Nat}
  {pairs done later : List (Nat × Nat)}

namespace Session

/-! ## Written particles -/

/-- The particles under the keys are there, and these bytes are their records. -/
def Written (s : Session dim spacedim) (keys : List Nat) (bytes : Bytes) : Prop :=
  ∃ ps, keys.mapM s.particles.find? = some ps ∧ Batch.encode s.world ps = .ok bytes

theorem written_nil : s.Written [] bytes ↔ bytes = [] := by
  constructor
  · rintro ⟨ps, hfound, henc⟩
    cases hfound
    cases henc
    rfl
  · rintro rfl
    exact ⟨[], rfl, rfl⟩

/-- The first record, and the others behind it. -/
theorem written_cons (hwritten : s.Written (key :: keys) bytes) :
    ∃ p first rest, s.particles.find? key = some p ∧ p.encode s.world = .ok first ∧
      s.Written keys rest ∧ bytes = first ++ rest := by
  obtain ⟨ps, hfound, henc⟩ := hwritten
  rw [List.mapM_cons] at hfound
  cases hkey : s.particles.find? key with
  | none => rw [hkey] at hfound; cases hfound
  | some p =>
    cases hkeys : keys.mapM s.particles.find? with
    | none => rw [hkey, hkeys] at hfound; cases hfound
    | some later =>
      rw [hkey, hkeys] at hfound
      cases hfound
      obtain ⟨first, rest, hfirst, hrest, heq⟩ := Batch.encode_cons_eq_ok_iff.mp henc
      exact ⟨p, first, rest, rfl, hfirst, ⟨later, hkeys, hrest⟩, heq⟩

/-- The records of some particles, and those of the others behind them. -/
theorem written_append {others : List Nat} (hwritten : s.Written (keys ++ others) bytes) :
    ∃ first rest, s.Written keys first ∧ s.Written others rest ∧ bytes = first ++ rest := by
  induction keys generalizing bytes with
  | nil => exact ⟨[], bytes, written_nil.mpr rfl, hwritten, rfl⟩
  | cons key keys ih =>
    obtain ⟨p, record, behind, hp, hrecord, hbehind, rfl⟩ := written_cons hwritten
    obtain ⟨first, rest, ⟨ps, hfound, henc⟩, hrest, rfl⟩ := ih hbehind
    refine ⟨record ++ first, rest, ⟨p :: ps, ?_, ?_⟩, hrest, by rw [List.append_assoc]⟩
    · rw [List.mapM_cons, hp, hfound]
      rfl
    · exact Batch.encode_cons_eq_ok_iff.mpr ⟨record, first, hrecord, henc, rfl⟩

/-- A batch that is written is appended to the buffer, and pools and particles stay. -/
theorem perform_encodeBatch_ok {expected n : Nat}
    (hperform : s.perform (.encodeBatch keys b) = (.batchEncoded (.ok ()) expected n, s')) :
    s'.world = s.world ∧ s'.particles = s.particles ∧
      ∃ bytes, s'.Written keys bytes ∧ s'.bytes b = s.bytes b ++ bytes := by
  rw [perform_encodeBatch] at hperform
  cases hfound : keys.mapM s.particles.find? with
  | none => rw [hfound] at hperform; cases hperform
  | some ps =>
    rw [hfound] at hperform
    simp only at hperform
    cases henc : Batch.encode s.world ps with
    | error failure => rw [henc] at hperform; cases hperform
    | ok bytes =>
      rw [henc] at hperform
      cases hperform
      refine ⟨rfl, rfl, bytes, ⟨ps, hfound, henc⟩, ?_⟩
      rw [Session.bytes, Registry.find?_insert_self, Option.getD_some]

/-! ## One update -/

/-- How many values the particle under a key has, if there is one. -/
def count? (s : Session dim spacedim) (key : Nat) : Option Nat :=
  (s.particles.find? key).map (·.propertyCount s.world)

/-- The pool and the handle of the particle under a key, if there is one. -/
def place? (s : Session dim spacedim) (key : Nat) : Option (Option Nat × Handle) :=
  (s.particles.find? key).map fun p => (p.pool, p.handle)

/-- The slot that the particle under a key holds, if there is one and it holds one. -/
def heldBy (s : Session dim spacedim) (key : Nat) : List HeldSlot :=
  ((s.particles.find? key).map Particle.slots).getD []

/-- There is a particle under the key, and its values can be written. -/
def Ready (s : Session dim spacedim) (key : Nat) : Prop :=
  ∃ q ∈ s.particles.find? key, q.Writable s.world

instance : Decidable (s.Ready key) :=
  inferInstanceAs (Decidable (∃ q ∈ s.particles.find? key, q.Writable s.world))

theorem heldBy_of_some (hq : s.particles.find? key = some q) : s.heldBy key = q.slots := by
  rw [heldBy, hq]
  rfl

theorem mem_heldBy {slot : HeldSlot} :
    slot ∈ s.heldBy key ↔ ∃ p, s.particles.find? key = some p ∧ slot ∈ p.slots := by
  unfold heldBy
  cases s.particles.find? key <;> simp

theorem heldBy_of_place? (hplace : s'.place? key = s.place? key) : s'.heldBy key = s.heldBy key := by
  unfold heldBy
  cases hq : s.particles.find? key with
  | none =>
    rw [place?, place?, hq] at hplace
    rw [Option.map_eq_none_iff.mp hplace]
  | some q =>
    rw [place?, place?, hq] at hplace
    obtain ⟨q', hq', heq⟩ := Option.map_eq_some_iff.mp hplace
    rw [hq']
    exact slots_congr (congrArg Prod.fst heq) (congrArg Prod.snd heq)

/-- The session once a particle is put under a key and the world and a buffer have changed. -/
theorem perform_update_ok (hq : s.particles.find? key = some q) {input : Bytes}
    (hbytes : s.bytes b = input) {q' : Particle dim spacedim}
    (hexec : (q.update input).exec s.world = (.ok (q', rest), w')) :
    s.perform (.update key b) = (.transferred (.ok ()) rest.length,
      { s with
        world := w'
        buffers := s.buffers.insert b rest
        particles := s.particles.insert key q' }) := by
  rw [perform_eq]
  simp only [ofStep]
  unfold StepM.update
  rw [exec_particle_of_some hq, exec_buffer_bind, exec_act_bind, hbytes, hexec]
  rfl

theorem perform_update_refused (hq : s.particles.find? key = some q) {cause : ParticleError}
    (hexec : (q.update (s.bytes b)).exec s.world = (Attempt.refuse cause, s.world)) :
    s.perform (.update key b) = (.transferred (Attempt.refuse cause) (s.bytes b).length, s) := by
  rw [perform_eq]
  simp only [ofStep]
  unfold StepM.update
  rw [exec_particle_of_some hq, exec_buffer_bind, exec_act_bind, hexec]
  rfl

/-! ## One update after the other -/

/-- No other target of the pairs holds the slot of the particle under the key. -/
def Alone (s : Session dim spacedim) (pairs : List (Nat × Nat)) (key : Nat) : Prop :=
  ∀ pair ∈ pairs, pair.2 ≠ key → (s.heldBy key).Disjoint (s.heldBy pair.2)

/-- The session `s'` is `s` once each target of the pairs, the second key, is brought up to date
from its source, the first key, as it was in the session `s₀`. -/
structure Updated (s₀ s : Session dim spacedim) (pairs : List (Nat × Nat))
    (s' : Session dim spacedim) : Prop where
  writes : s.world.Writes (pairs.flatMap fun pair => s.heldBy pair.2) s'.world
  place_eq : ∀ key, s'.place? key = s.place? key
  others : ∀ key, key ∉ pairs.map Prod.snd → s'.particles.find? key = s.particles.find? key
  records : ∀ pair ∈ pairs, s.Alone pairs pair.2 → ∃ p q r,
    s₀.particles.find? pair.1 = some p ∧ s'.particles.find? pair.2 = some q ∧
      p.toRecord s₀.world = .ok r ∧ q.toRecord s'.world = .ok r

namespace Updated

variable {pair : Nat × Nat}

theorem nil (s₀ s : Session dim spacedim) : Updated s₀ s [] s where
  writes := .refl s.world _
  place_eq _ := rfl
  others _ _ := rfl
  records _ hpair := by cases hpair

theorem heldBy_eq (updated : Updated s₀ s pairs s') (key : Nat) : s'.heldBy key = s.heldBy key :=
  heldBy_of_place? (updated.place_eq key)

/-- Who is no target has as many values as before. -/
theorem count?_eq (updated : Updated s₀ s pairs s') (hkey : key ∉ pairs.map Prod.snd) :
    s'.count? key = s.count? key := by
  rw [count?, count?, updated.others key hkey]
  exact Option.map_congr fun p _ => propertyCount_of_evolves updated.writes.evolves

/-- Who is no target can be written to as before. -/
theorem ready (updated : Updated s₀ s pairs s') (hkey : key ∉ pairs.map Prod.snd)
    (hready : s.Ready key) : s'.Ready key := by
  obtain ⟨q, hq, writable⟩ := hready
  exact ⟨q, (updated.others key hkey).trans hq, writable.of_writes updated.writes⟩

/-- One target comes first, and the others are other particles. -/
theorem cons (wf : s.world.WellFormed) (first : Updated s₀ s [pair] s')
    (later : Updated s₀ s' pairs s'') (hout : pair.2 ∉ pairs.map Prod.snd) :
    Updated s₀ s (pair :: pairs) s'' where
  writes := by
    have hboth := first.writes.trans later.writes
    simp only [first.heldBy_eq] at hboth
    simpa using hboth
  place_eq key := (later.place_eq key).trans (first.place_eq key)
  others key hkey := by
    rw [List.map_cons, List.mem_cons, not_or] at hkey
    exact (later.others key hkey.2).trans (first.others key (by simpa using hkey.1))
  records := by
    intro target htarget halone
    rcases List.mem_cons.mp htarget with rfl | hmem
    · have halone' : s.Alone [target] target.2 := fun other hother hne =>
        absurd (congrArg Prod.snd (List.mem_singleton.mp hother)) hne
      obtain ⟨p, q, r, hp, hq, hr, hr'⟩ := first.records target List.mem_cons_self halone'
      refine ⟨p, q, r, hp, (later.others _ hout).trans hq, hr, ?_⟩
      -- the later targets hold other slots
      refine toRecord_of_evolves (first.writes.evolves.wellFormed wf) later.writes.evolves
        (fun slot hslot => later.writes.kept _ _ fun hmem => ?_) hr'
      obtain ⟨other, hother, hheld⟩ := List.mem_flatMap.mp hmem
      have hne : other.2 ≠ target.2 := fun heq => hout (heq ▸ List.mem_map_of_mem hother)
      rw [first.heldBy_eq] at hheld
      rw [← heldBy_of_some hq, first.heldBy_eq] at hslot
      exact halone other (List.mem_cons_of_mem _ hother) hne hslot hheld
    · refine later.records target hmem fun other hother hne => ?_
      rw [first.heldBy_eq, first.heldBy_eq]
      exact halone other (List.mem_cons_of_mem _ hother) hne

end Updated

/-- A target whose count is its source's is brought up to date. -/
theorem perform_update_written {source target : Nat} (wf₀ : s₀.world.WellFormed)
    (wf : s.world.WellFormed) (hp : s₀.particles.find? source = some p)
    (hfirst : p.encode s₀.world = .ok first) (hbytes : s.bytes b = first ++ rest)
    (hready : s.Ready target) (hagree : s₀.count? source = s.count? target) :
    ∃ s', s.perform (.update target b) = (.transferred (.ok ()) rest.length, s') ∧
      s'.bytes b = rest ∧ Updated s₀ s [(source, target)] s' := by
  obtain ⟨q, hq, writable⟩ := hready
  rw [count?, count?, hp, hq, Option.map_some, Option.map_some] at hagree
  obtain ⟨r, w', hrecord, hexec, writes, hrecord'⟩ :=
    exec_update_encode wf₀ wf hfirst writable (Option.some.inj hagree) rest
  have hthere : (s.particles.insert target (q.relabelled r)).find? target = some (q.relabelled r) :=
    Registry.find?_insert_self ..
  have hothers : ∀ key, key ≠ target →
      (s.particles.insert target (q.relabelled r)).find? key = s.particles.find? key :=
    fun key hne => Registry.find?_insert_of_ne _ _ hne
  refine ⟨_, perform_update_ok hq hbytes hexec, ?_, ?_⟩
  · simp only [bytes, Registry.find?_insert_self, Option.getD_some]
  · refine ⟨by simpa [heldBy_of_some hq] using writes, fun key => ?_, fun key hkey => ?_, ?_⟩
    · by_cases hkey : key = target
      · rw [place?, place?, hkey, hq, hthere]
        rfl
      · rw [place?, place?, hothers key hkey]
    · exact hothers key (by simpa using hkey)
    · intro pair hpair _
      obtain rfl := List.mem_singleton.mp hpair
      exact ⟨p, _, r, hp, hthere, hrecord, hrecord'⟩

/-- A target with another count than its source is left as it is, and so is the buffer. -/
theorem perform_update_written_of_ne {source target m n : Nat} (wf₀ : s₀.world.WellFormed)
    (wf : s.world.WellFormed) (hp : s₀.particles.find? source = some p)
    (hfirst : p.encode s₀.world = .ok first) (hbytes : s.bytes b = first ++ rest)
    (hready : s.Ready target) (hsource : s₀.count? source = some m)
    (htarget : s.count? target = some n) (hne : m ≠ n) :
    s.perform (.update target b) =
      (.transferred (Attempt.refuse (.countMismatch m n)) (s.bytes b).length, s) := by
  obtain ⟨q, hq, writable⟩ := hready
  rw [count?, hp, Option.map_some, Option.some.injEq] at hsource
  rw [count?, hq, Option.map_some, Option.some.injEq] at htarget
  subst hsource htarget
  refine perform_update_refused hq ?_
  rw [hbytes]
  exact exec_update_encode_of_ne wf₀ wf hfirst writable hne rest

/-- Targets with the counts of their sources are brought up to date one after the other, and the
bytes behind the records are left. -/
theorem run_updates (wf₀ : s₀.world.WellFormed) (wf : s.world.WellFormed)
    (hwritten : s₀.Written (pairs.map Prod.fst) bytes) (hbytes : s.bytes b = bytes ++ rest)
    (hready : ∀ pair ∈ pairs, s.Ready pair.2) (hnodup : (pairs.map Prod.snd).Nodup)
    (hagree : ∀ pair ∈ pairs, s₀.count? pair.1 = s.count? pair.2) :
    ∃ answers s', s.run (pairs.map fun pair => .update pair.2 b) = (answers, s') ∧
      (∀ answer ∈ answers, ∃ n, answer = .transferred (.ok ()) n) ∧ s'.bytes b = rest ∧
      Updated s₀ s pairs s' := by
  induction pairs generalizing s bytes with
  | nil =>
    rw [written_nil.mp hwritten, List.nil_append] at hbytes
    exact ⟨[], s, rfl, by simp, hbytes, .nil s₀ s⟩
  | cons pair pairs ih =>
    obtain ⟨source, target⟩ := pair
    obtain ⟨p, first, more, hp, hfirst, hmore, rfl⟩ := written_cons hwritten
    rw [List.append_assoc] at hbytes
    obtain ⟨hout, hnodup⟩ := List.nodup_cons.mp hnodup
    obtain ⟨s₁, hperform, hleft, updated⟩ := perform_update_written wf₀ wf hp hfirst hbytes
      (hready _ List.mem_cons_self) (hagree _ List.mem_cons_self)
    have hother : ∀ pair ∈ pairs, pair.2 ∉ [(source, target)].map Prod.snd := by
      intro pair hpair hmem
      exact hout (List.mem_singleton.mp hmem ▸ List.mem_map_of_mem hpair)
    obtain ⟨answers, s', hrun, hanswers, hrest, hlater⟩ :=
      ih (updated.writes.evolves.wellFormed wf) hmore hleft
        (fun pair hpair =>
          updated.ready (hother pair hpair) (hready pair (List.mem_cons_of_mem _ hpair)))
        hnodup
        (fun pair hpair => by
          rw [updated.count?_eq (hother pair hpair)]
          exact hagree pair (List.mem_cons_of_mem _ hpair))
    refine ⟨.transferred (.ok ()) (more ++ rest).length :: answers, s', ?_, ?_, hrest,
      updated.cons wf hlater hout⟩
    · rw [List.map_cons, run, hperform]
      simp only [hrun]
    · intro answer hanswer
      rcases List.mem_cons.mp hanswer with rfl | hmem
      · exact ⟨_, rfl⟩
      · exact hanswers answer hmem

/-! ## The exchange -/

/-- What becomes of the session `s`, whose buffer `b` holds the records of all sources, the first
keys of the pairs, once the targets of the pairs that are `done` were brought up to date. -/
structure Exchanged (s : Session dim spacedim) (b : Nat) (done later : List (Nat × Nat))
    (answers : List (Answer dim spacedim)) (s' : Session dim spacedim) : Prop where
  /-- Every update succeeds. -/
  succeeded : ∀ answer ∈ answers, ∃ n, answer = .transferred (.ok ()) n
  /-- The records of the other sources are left, and no byte if there are none. -/
  left : s.Written (later.map Prod.fst) (s'.bytes b)
  drained : later = [] → s'.bytes b = []
  /-- A target shows what its source showed when it was written. -/
  same : ∀ pair ∈ done, s.Alone done pair.2 → ∃ p q, s.particles.find? pair.1 = some p ∧
    s'.particles.find? pair.2 = some q ∧ p.SameContents s.world s'.world q
  /-- Every particle, target or not, has the pool and the handle that it had, -/
  place_eq : ∀ key, s'.place? key = s.place? key
  /-- and all pools have the slots, generations, free slots and counts that they had. -/
  ledgers_eq : s'.world.pools.map Pool.ledger = s.world.pools.map Pool.ledger
  /-- Who is no target of these is the same, and shows the same. -/
  others : ∀ key, key ∉ done.map Prod.snd → s'.particles.find? key = s.particles.find? key ∧
    (s.Alone done key → s'.snapshot? key = s.snapshot? key)
  /-- If the next target has another count than its source, it is refused, and that is all. -/
  refused : ∀ source target more m n, later = (source, target) :: more →
    s.count? source = some m → s.count? target = some n → m ≠ n →
      s'.perform (.update target b) =
        (.transferred (Attempt.refuse (.countMismatch m n)) (s'.bytes b).length, s')

theorem exchanged_of_written (wf : s.world.WellFormed)
    (hwritten : s.Written ((done ++ later).map Prod.fst) (s.bytes b))
    (hready : ∀ pair ∈ done ++ later, s.Ready pair.2) (hnodup : ((done ++ later).map Prod.snd).Nodup)
    (hagree : ∀ pair ∈ done, s.count? pair.1 = s.count? pair.2) :
    ∃ answers s', s.run (done.map fun pair => .update pair.2 b) = (answers, s') ∧
      s.Exchanged b done later answers s' := by
  rw [List.map_append] at hwritten hnodup
  obtain ⟨bytes, rest, hdone, hlater, hbytes⟩ := written_append hwritten
  obtain ⟨hnodup', -, hapart⟩ := List.nodup_append.mp hnodup
  obtain ⟨answers, s', hrun, hanswers, hleft, updated⟩ := run_updates wf wf hdone hbytes
    (fun pair hpair => hready pair (List.mem_append_left _ hpair)) hnodup' hagree
  have wf' := updated.writes.evolves.wellFormed wf
  refine ⟨answers, s', hrun, ⟨hanswers, hleft ▸ hlater, ?_, ?_, updated.place_eq,
    updated.writes.ledgers_eq, ?_, ?_⟩⟩
  · rintro rfl
    rw [hleft]
    exact written_nil.mp hlater
  · intro pair hpair halone
    obtain ⟨p, q, r, hp, hq, hr, hr'⟩ := updated.records pair hpair halone
    exact ⟨p, q, hp, hq, sameContents_of_toRecord wf wf' hr hr'⟩
  · intro key hkey
    refine ⟨updated.others key hkey, fun halone => ?_⟩
    rw [snapshot?, snapshot?, updated.others key hkey]
    refine Option.map_congr fun p hp => snapshot_of_writes wf updated.writes ?_
    intro slot hslot hmem
    obtain ⟨pair, hpair, hheld⟩ := List.mem_flatMap.mp hmem
    rw [← heldBy_of_some hp] at hslot
    exact halone pair hpair (fun heq => hkey (heq ▸ List.mem_map_of_mem hpair)) hslot hheld
  · rintro source target more m n rfl hm hn hne
    obtain ⟨p, first, behind, hp, hfirst, -, rfl⟩ := written_cons hlater
    have hout : target ∉ done.map Prod.snd := fun hmem => hapart _ hmem _ List.mem_cons_self rfl
    exact perform_update_written_of_ne wf wf' hp hfirst hleft
      (updated.ready hout (hready _ (List.mem_append_right _ List.mem_cons_self))) hm
      ((updated.count?_eq hout).trans hn) hne

/-- Particles that are the sole holders of slots hold one each. -/
theorem alone_of_sound (sound : s.Sound True) (pairs : List (Nat × Nat)) (key : Nat) :
    s.Alone pairs key := by
  intro pair _ hne slot hslot hslot'
  obtain ⟨p, hp, hslot⟩ := mem_heldBy.mp hslot
  obtain ⟨q, hq, hslot'⟩ := mem_heldBy.mp hslot'
  have hnodup := ((sound.split hp).owns trivial).nodup
  rw [slotsOf_cons] at hnodup
  have hmem : q ∈ (s.particles.erase key).values :=
    Registry.mem_values_of_find? ((Registry.find?_erase_of_ne _ hne).trans hq)
  exact (List.disjoint_of_nodup_append hnodup) hslot (List.mem_flatMap.mpr ⟨q, hmem, hslot'⟩)

/-- Particles whose slots were not released 2^32 times hold one each. -/
theorem alone_of_backed {history : List SlotEvent} (backed : s.Backed history)
    (rec : Recorded history s.world) (hasc : s.particles.Ascending)
    (hlt : ∀ pair ∈ pairs, ∀ slot ∈ s.heldBy pair.2,
      releases history slot.1 slot.2.index.toNat < UInt32.size) (key : Nat) : s.Alone pairs key := by
  intro pair hpair hne slot hslot hslot'
  have hfew := hlt pair hpair slot hslot'
  obtain ⟨p, hp, hslot⟩ := mem_heldBy.mp hslot
  obtain ⟨q, hq, hslot'⟩ := mem_heldBy.mp hslot'
  exact backed.sole rec hasc (Ne.symm hne) hp hq hfew hslot hslot'

/-- **Targets are brought up to date in place**, after every run of steps, from the records of as
many sources, up to the first one whose count differs. What a target or anybody else shows in
the end depends on who else holds its slot. No two particles hold one slot while slots are taken
and released by particles only. A slot that was released behind a particle's back can become
another particle's with the same handle, once its generations have come round, and no sooner. -/
theorem exchanged_run (steps : List (Step dim spacedim)) (b : Nat) (done later : List (Nat × Nat))
    (s : Session dim spacedim) (expected length : Nat)
    (hempty : (run ({} : Session dim spacedim) steps).2.bytes b = [])
    (hwritten : (run ({} : Session dim spacedim) steps).2.perform
      (.encodeBatch ((done ++ later).map Prod.fst) b) = (.batchEncoded (.ok ()) expected length, s))
    (hready : ∀ pair ∈ done ++ later, s.Ready pair.2) (hnodup : ((done ++ later).map Prod.snd).Nodup)
    (hagree : ∀ pair ∈ done, s.count? pair.1 = s.count? pair.2) :
    (∃ answers s', s.run (done.map fun pair => .update pair.2 b) = (answers, s') ∧
      s.Exchanged b done later answers s') ∧
    ((∀ step ∈ steps, step.isBare = false) → ∀ key, s.Alone done key) ∧
    ∃ history, ({} : World).Leads PoolCall.isAny history s.world ∧
      ((∀ pair ∈ done, ∀ slot ∈ s.heldBy pair.2,
        releases history slot.1 slot.2.index.toNat < UInt32.size) → ∀ key, s.Alone done key) := by
  obtain ⟨hworld, hparticles, bytes, written, hbytes⟩ := perform_encodeBatch_ok hwritten
  rw [hempty, List.nil_append] at hbytes
  have wf : s.world.WellFormed := hworld ▸ (sound_reached steps).wellFormed
  refine ⟨exchanged_of_written wf (hbytes ▸ written) hready hnodup hagree, fun hbare key => ?_, ?_⟩
  · have sound : s.Sound True := by
      rw [Sound, hworld, hparticles]
      exact sound_run sound_empty steps fun _ => hbare
    exact alone_of_sound sound done key
  · obtain ⟨history, leads, backed⟩ := backed_reached steps
    have hasc : s.particles.Ascending := hparticles ▸ (sound_reached steps).1
    refine ⟨history, hworld ▸ leads, fun hlt key => ?_⟩
    have backed' : s.Backed history := by
      rw [Backed, hworld, hparticles]
      exact backed
    exact alone_of_backed backed' (hworld ▸ recorded_of_leads leads) hasc hlt key

/-- Two of three targets are brought up to date, one of them beside its source in a pool, and the
third one has no slot for the values of its source. -/
theorem exchanged_run_of_mixed :
    let steps : List (Step 1 1) :=
      [.makePool { stride := 1 }, .make 0, .moveTo 0 0, .setValues 0 [⟨7⟩], .setId 0 ⟨5⟩, .make 1,
        .make 2, .moveTo 2 0, .setValues 2 [⟨8⟩], .make 3, .make 4]
    let s := ((run {} steps).2.perform (.encodeBatch [0, 1, 0] 0)).2
    (∃ answers s', s.run [.update 2 0, .update 3 0] = (answers, s') ∧
      s.Exchanged 0 [(0, 2), (1, 3)] [(0, 4)] answers s') ∧
    (∀ key, s.Alone [(0, 2), (1, 3)] key) ∧ s.count? 0 = some 1 ∧ s.count? 4 = some 0 := by
  intro steps s
  have hrun := exchanged_run steps 0 [(0, 2), (1, 3)] [(0, 4)] s 100 100 rfl rfl (by decide +kernel)
    (by decide) (by decide +kernel)
  exact ⟨hrun.1, hrun.2.1 (by decide), by decide +kernel, by decide +kernel⟩

end Session

end ParticleStore
