/-
ParticleStore.Proofs.Session.Writers — what writers append, and when they append nothing.

Before a particle is written its bytes are announced: as many as its pool's stride makes
them. What is written then is as many values as the slot shows. Both come to one number,
so a buffer grows by what was announced (`exists_encode_eq`).

A particle cannot be written if its slot is not live any more, if somebody writes to its
pool, or if a record cannot say how many values it has (`Unwritable`). Of a list of particles
the first one that cannot be written decides (`encode_of_first`). A writer that appends
record by record has to cut back then what it has appended, which leaves what a writer
leaves that appends all records at once (`appendOnto_eq`).
-/
import ParticleStore.Proofs.Migration
import ParticleStore.Proofs.Plain.Batches

namespace ParticleStore

open World

variable {dim spacedim : Nat} {w : World} {i b key : Nat} {pl : Pool} {h : Handle}
  {p : Particle dim spacedim} {ps : List (Particle dim spacedim)} {r : Record dim spacedim}
  {bytes : Bytes} {keys : List Nat}

theorem Record.encode_eq (r : Record dim spacedim) :
    ∃ bytes, r.encode = if UInt32.size ≤ r.values.length then
      .error (.countTooLarge r.values.length) else .ok bytes := by
  have hheader : r.header.count = r.values.length := rfl
  rw [← hheader]
  unfold Record.encode Header.encode
  by_cases hcount : r.header.count < UInt32.size
  · exact ⟨_, by rw [if_pos hcount, if_neg (Nat.not_le.mpr hcount)]; rfl⟩
  · exact ⟨[], by rw [if_neg hcount, if_pos (Nat.le_of_not_lt hcount)]; rfl⟩

namespace Stream

variable (chunk room : Option Nat) (data : Bytes)

theorem deliver_isPrefix : (deliver chunk room data).2 <+: data := by
  unfold deliver
  by_cases hpass : passes chunk = true
  · simp only [if_pos hpass]
    exact List.take_prefix ..
  · simp only [if_neg hpass]
    exact List.nil_prefix

/-- A stream reports no error if it has taken everything. -/
theorem deliver_eq_ok_iff :
    (deliver chunk room data).1 = .ok () ↔ (deliver chunk room data).2 = data := by
  have hfst : (deliver chunk room data).1 =
      if (deliver chunk room data).2.length = data.length then .ok () else .error .full := rfl
  rw [hfst]
  by_cases hall : (deliver chunk room data).2.length = data.length
  · rw [if_pos hall]
    exact ⟨fun _ => (deliver_isPrefix chunk room data).eq_of_length hall, fun _ => rfl⟩
  · rw [if_neg hall]
    exact ⟨nofun, fun heq => absurd (congrArg List.length heq) hall⟩

end Stream

namespace Particle

/-! ## One particle -/

/-- The particle's slot is not live any more, or somebody writes to its pool, or the particle has
more values than a record can count. -/
def Unwritable (w : World) (p : Particle dim spacedim) : Prop :=
  ∃ i h pl, p.slot? = some (i, h) ∧ w.pool? i = some pl ∧
    (pl.isLive h = false ∨ 0 < pl.writers ∨ UInt32.size ≤ p.propertyCount w)

/-- Why the particle's values cannot be read. -/
def unreadable? (w : World) (p : Particle dim spacedim) : Option ParticleError :=
  match p.slot? with
  | none => none
  | some (i, h) => (w.pool? i).bind fun pl => ((pl.flawed? h).or pl.written?).map .pool

/-- Why the particle cannot be written. -/
def unwritable? (w : World) (p : Particle dim spacedim) : Option ParticleError :=
  (p.unreadable? w).or (if UInt32.size ≤ p.propertyCount w then
    some (.malformed (.countTooLarge (p.propertyCount w))) else none)

theorem unreadable?_of_slot (hs : p.slot? = some (i, h)) (hp : w.pool? i = some pl) :
    p.unreadable? w = ((pl.flawed? h).or pl.written?).map .pool := by
  unfold unreadable?
  rw [hs]
  simp only [hp, Option.bind_some]

/-- The causes are the three. -/
theorem isSome_unwritable?_iff (placed : p.Placed w) :
    (p.unwritable? w).isSome ↔ p.Unwritable w := by
  cases hs : p.slot? with
  | none =>
    have hnone : p.unwritable? w = none := by
      rw [unwritable?, unreadable?, hs, propertyCount_of_none hs]
      rfl
    rw [hnone]
    exact ⟨nofun, fun ⟨i, h, _, hslot, _⟩ => by rw [hs] at hslot; cases hslot⟩
  | some held =>
    obtain ⟨i, h⟩ := held
    obtain ⟨pl, hp, -⟩ := placed.slot hs
    have hiff : (p.unwritable? w).isSome ↔
        pl.isLive h = false ∨ 0 < pl.writers ∨ UInt32.size ≤ p.propertyCount w := by
      rw [unwritable?, unreadable?_of_slot hs hp, Pool.isLive_eq, Pool.written?]
      cases pl.flawed? h <;> by_cases hwriters : 0 < pl.writers <;>
        by_cases hcount : UInt32.size ≤ p.propertyCount w <;> simp [hwriters, hcount]
    rw [hiff]
    constructor
    · exact fun hcause => ⟨i, h, pl, hs, hp, hcause⟩
    · rintro ⟨i', h', pl', hs', hp', hcause⟩
      rw [hs] at hs'
      cases hs'
      rw [hp] at hp'
      cases hp'
      exact hcause

/-- The values that can be read are as many as the particle counts. -/
theorem exists_listed_eq (wf : w.WellFormed) (placed : p.Placed w) :
    ∃ values, p.listed w = .decided (p.unreadable? w) values ∧
      (p.unreadable? w = none → values.length = p.propertyCount w) := by
  cases hs : p.slot? with
  | none =>
    refine ⟨[], ?_, fun _ => (propertyCount_of_none hs).symm⟩
    rw [listed_of_none hs, unreadable?, hs]
    rfl
  | some held =>
    obtain ⟨i, h⟩ := held
    obtain ⟨pl, hp, -⟩ := placed.slot hs
    have wfp := wf.pool i pl hp
    rw [listed_of_slot hs, unreadable?_of_slot hs hp, propertyCount_of_slot hs hp]
    refine ⟨_, values_of_slot hs hp wfp, fun hnone => ?_⟩
    rw [Option.map_eq_none_iff, Option.or_eq_none_iff] at hnone
    exact Pool.length_block_of_flawed? wfp hnone.1

/-- A particle is written in as many bytes as were announced, unless it cannot be written. -/
theorem exists_encode_eq (wf : w.WellFormed) (placed : p.Placed w) :
    ∃ bytes, p.encode w = .decided (p.unwritable? w) bytes ∧
      (p.unwritable? w = none → bytes.length = p.byteWidth w) := by
  obtain ⟨values, hlisted, hlength⟩ := exists_listed_eq wf placed
  unfold encode unwritable?
  rw [toRecord_eq, hlisted]
  cases hread : p.unreadable? w with
  | some cause => exact ⟨[], rfl, nofun⟩
  | none =>
    have hlength := hlength hread
    obtain ⟨bytes, henc⟩ :=
      Record.encode_eq (⟨p.location, p.reference, p.id, values⟩ : Record dim spacedim)
    simp only [hlength] at henc
    by_cases hcount : UInt32.size ≤ p.propertyCount w
    · rw [if_pos hcount] at henc
      refine ⟨[], ?_, fun hnone => ?_⟩
      · simp only [Attempt.decided_none, Except.map, bind, Except.bind, henc, if_pos hcount]
        rfl
      · rw [if_pos hcount] at hnone
        cases hnone
    · rw [if_neg hcount] at henc
      refine ⟨bytes, ?_, fun _ => ?_⟩
      · simp only [Attempt.decided_none, Except.map, bind, Except.bind, henc, if_neg hcount]
        rfl
      · rw [Record.length_encode henc, hlength, byteWidth]

theorem encode_of_unwritable {cause : ParticleError} (wf : w.WellFormed) (placed : p.Placed w)
    (hcause : p.unwritable? w = some cause) : p.encode w = Attempt.refuse cause := by
  obtain ⟨bytes, henc, -⟩ := exists_encode_eq wf placed
  rw [henc, hcause, Attempt.decided_some]

/-- What is announced is what is written. -/
theorem length_encode (wf : w.WellFormed) (placed : p.Placed w) (henc : p.encode w = .ok bytes) :
    bytes.length = p.byteWidth w := by
  obtain ⟨written, heq, hlength⟩ := exists_encode_eq wf placed
  rw [henc, eq_comm, Attempt.decided_eq_ok_iff] at heq
  obtain ⟨hnone, rfl⟩ := heq
  exact hlength hnone

theorem exists_encode_of_not_unwritable (wf : w.WellFormed) (placed : p.Placed w)
    (hwritable : ¬ p.Unwritable w) : ∃ bytes, p.encode w = .ok bytes := by
  obtain ⟨bytes, henc, -⟩ := exists_encode_eq wf placed
  rw [← isSome_unwritable?_iff placed, Option.not_isSome_iff_eq_none] at hwritable
  exact ⟨bytes, by rw [henc, hwritable, Attempt.decided_none]⟩

/-- What a stream is given when a particle is saved to it: nothing, or the bytes of the particle's
record, of which it may not take all. -/
structure Delivered (w : World) (p : Particle dim spacedim) (chunk room : Option Nat) : Prop where
  refused : ∀ failure, p.encode w = .error failure → p.save w chunk room = (.error failure, [])
  given : ∀ bytes, p.encode w = .ok bytes →
    (p.save w chunk room).2 <+: bytes ∧
      ((p.save w chunk room).1 = .ok () ↔ (p.save w chunk room).2 = bytes)
  /-- A stream that passes bytes and has room for them takes them all. -/
  taken : ∀ bytes, p.encode w = .ok bytes → Stream.passes chunk = true →
    (∀ n, room = some n → bytes.length ≤ n) → p.save w chunk room = (.ok (), bytes)

theorem delivered (w : World) (p : Particle dim spacedim) (chunk room : Option Nat) :
    p.Delivered w chunk room where
  refused failure henc := by rw [save, henc]
  given bytes henc := by
    have hfront := Stream.deliver_isPrefix chunk room bytes
    have hall := Stream.deliver_eq_ok_iff chunk room bytes
    simp only [save, henc]
    rcases hdeliver : Stream.deliver chunk room bytes with ⟨outcome, taken⟩
    rw [hdeliver] at hfront hall
    cases outcome with
    | ok _ => exact ⟨hfront, fun _ => hall.mp rfl, fun _ => rfl⟩
    | error cause => exact ⟨hfront, nofun, fun heq => nomatch hall.mpr heq⟩
  taken bytes henc hpass hroom := by
    have hfits : bytes.length ≤ room.getD bytes.length := by
      cases room with
      | none => exact Nat.le_refl _
      | some n => exact hroom n rfl
    have hdeliver : Stream.deliver chunk room bytes = (.ok (), bytes) := by
      unfold Stream.deliver
      simp only [if_pos hpass, List.take_of_length_le hfits, if_true]
    simp only [save, henc, hdeliver]

end Particle

/-! ## A list of particles -/

namespace Batch

open Particle

/-- The records of the particles behind the bytes `out`, appended one by one. Where one cannot be
written the bytes are cut back to the first `start`. -/
def appendOnto (w : World) (start : Nat) (out : Bytes) :
    List (Particle dim spacedim) → Attempt ParticleError Unit × Bytes
  | [] => (.ok (), out)
  | p :: later =>
    match p.encode w with
    | .ok bytes => appendOnto w start (out ++ bytes) later
    | .error failure => (.error failure, out.take start)

/-- It makes no difference to append the records one by one and to cut back what was appended. -/
theorem appendOnto_eq (out more : Bytes) (ps : List (Particle dim spacedim)) :
    appendOnto w out.length (out ++ more) ps =
      match encode w ps with
      | .ok bytes => (.ok (), out ++ more ++ bytes)
      | .error failure => (.error failure, out) := by
  induction ps generalizing more with
  | nil => rw [appendOnto, encode]; simp [pure, Except.pure]
  | cons p later ih =>
    rw [appendOnto, encode]
    cases p.encode w with
    | error failure => simp [bind, Except.bind]
    | ok bytes =>
      simp only [bind, Except.bind]
      rw [List.append_assoc, ih]
      cases encode w later <;> simp [pure, Except.pure]

/-- Particles that can all be written are written one after the other. -/
theorem exists_chunks (wf : w.WellFormed) (placed : ∀ p ∈ ps, p.Placed w)
    (hwritable : ∀ p ∈ ps, ¬ p.Unwritable w) :
    ∃ chunks : List Bytes, List.Forall₂ (fun chunk p => p.encode w = .ok chunk) chunks ps ∧
      encode w ps = .ok chunks.flatten ∧ chunks.flatten.length = byteWidth w ps := by
  induction ps with
  | nil => exact ⟨[], .nil, rfl, rfl⟩
  | cons p later ih =>
    have hp := placed p List.mem_cons_self
    obtain ⟨first, hfirst⟩ :=
      exists_encode_of_not_unwritable wf hp (hwritable p List.mem_cons_self)
    obtain ⟨chunks, hchunks, hlater, hlength⟩ :=
      ih (fun q hq => placed q (List.mem_cons_of_mem p hq))
        fun q hq => hwritable q (List.mem_cons_of_mem p hq)
    refine ⟨first :: chunks, .cons hfirst hchunks, ?_, ?_⟩
    · exact encode_cons_eq_ok_iff.mpr ⟨first, chunks.flatten, hfirst, hlater, rfl⟩
    · rw [List.flatten_cons, List.length_append, hlength, Particle.length_encode wf hp hfirst]
      rfl

theorem exists_first_unwritable (h : ∃ p ∈ ps, p.Unwritable w) :
    ∃ before p after, ps = before ++ p :: after ∧ (∀ q ∈ before, ¬ q.Unwritable w) ∧
      p.Unwritable w := by
  classical
  obtain ⟨p, hp, hunwritable⟩ := h
  have hfind : (ps.find? fun q => q.Unwritable w).isSome :=
    List.find?_isSome.mpr ⟨p, hp, decide_eq_true hunwritable⟩
  obtain ⟨first, hfirst⟩ := Option.isSome_iff_exists.mp hfind
  obtain ⟨hfirst, before, after, hps, hbefore⟩ := List.find?_eq_some_iff_append.mp hfirst
  exact ⟨before, first, after, hps, fun q hq => by simpa using hbefore q hq,
    of_decide_eq_true hfirst⟩

/-- The first particle that cannot be written is what the whole list is refused for. -/
theorem encode_of_first {before after : List (Particle dim spacedim)} {cause : ParticleError}
    (wf : w.WellFormed) (placed : ∀ q ∈ before ++ p :: after, q.Placed w)
    (hbefore : ∀ q ∈ before, ¬ q.Unwritable w) (hcause : p.unwritable? w = some cause) :
    encode w (before ++ p :: after) = Attempt.refuse cause := by
  induction before with
  | nil =>
    rw [List.nil_append, encode,
      encode_of_unwritable wf (placed p List.mem_cons_self) hcause]
    rfl
  | cons q earlier ih =>
    obtain ⟨first, hfirst⟩ := exists_encode_of_not_unwritable wf (placed q List.mem_cons_self)
      (hbefore q List.mem_cons_self)
    rw [List.cons_append, encode, hfirst]
    simp only [bind, Except.bind]
    rw [ih (fun q' hq' => placed q' (List.mem_cons_of_mem q hq'))
      fun q' hq' => hbefore q' (List.mem_cons_of_mem q hq')]
    rfl

end Batch

/-! ## Steps -/

namespace Session

open Particle StepM

variable {s : Session dim spacedim}

/-- What becomes of a buffer when the particles `ps`, under the keys `keys`, are written to it. -/
structure Appends (s : Session dim spacedim) (keys : List Nat) (ps : List (Particle dim spacedim))
    (b : Nat) : Prop where
  /-- The particles' sizes are announced together, and each is that of a record with the values
  that the particle counts. -/
  announced : Batch.byteWidth s.world ps =
    (ps.map fun p => Record.byteWidth dim spacedim (p.propertyCount s.world)).foldr (· + ·) 0
  /-- If all particles can be written, then each of them alone, and the buffer grows by their
  bytes in turn, which are as many as were announced. -/
  written : (∀ p ∈ ps, ¬ p.Unwritable s.world) → ∃ chunks : List Bytes,
    List.Forall₂ (fun chunk p => p.encode s.world = .ok chunk) chunks ps ∧
    chunks.flatten.length = Batch.byteWidth s.world ps ∧
    s.perform (.encodeBatch keys b) =
      (.batchEncoded (.ok ()) (Batch.byteWidth s.world ps) (s.bytes b ++ chunks.flatten).length,
        { s with buffers := s.buffers.insert b (s.bytes b ++ chunks.flatten) })
  /-- Otherwise the first one that cannot be written is what the list is refused for, with its own
  cause, and nothing is changed. -/
  refused : (∃ p ∈ ps, p.Unwritable s.world) → ∃ before p after cause,
    ps = before ++ p :: after ∧ (∀ q ∈ before, ¬ q.Unwritable s.world) ∧ p.Unwritable s.world ∧
    p.encode s.world = Attempt.refuse cause ∧
    s.perform (.encodeBatch keys b) = (.batchEncoded (Attempt.refuse cause)
      (Batch.byteWidth s.world ps) (s.bytes b).length, s)
  /-- A writer that appends record by record and cuts back says the same and leaves the same. -/
  cutBack : let inPlace := Batch.appendOnto s.world (s.bytes b).length (s.bytes b) ps
    (s.perform (.encodeBatch keys b)).1 =
        .batchEncoded inPlace.1 (Batch.byteWidth s.world ps) inPlace.2.length ∧
      (s.perform (.encodeBatch keys b)).2.bytes b = inPlace.2
  /-- A particle that is written alone appends its bytes, or changes nothing. -/
  alone : ∀ key p, s.particles.find? key = some p → s.perform (.encode key b) =
    match p.encode s.world with
    | .ok bytes => (.transferred (.ok ()) (s.bytes b ++ bytes).length,
        { s with buffers := s.buffers.insert b (s.bytes b ++ bytes) })
    | .error failure => (.transferred (.error failure) (s.bytes b).length, s)
  /-- A particle saved to a stream gives it the bytes that it is written in. -/
  saved : ∀ p ∈ ps, ∀ chunk room, p.Delivered s.world chunk room

theorem appends {sole : Prop} (sound : s.Sound sole)
    (hfound : keys.mapM s.particles.find? = some ps) (b : Nat) : s.Appends keys ps b where
  announced := by rw [List.foldr_map, Batch.byteWidth]; rfl
  written hwritable := by
    have placed : ∀ p ∈ ps, p.Placed s.world :=
      fun p hp => sound.2.placed p (mem_values_of_mapM hfound hp)
    obtain ⟨chunks, hchunks, henc, hlength⟩ := Batch.exists_chunks sound.wellFormed placed hwritable
    refine ⟨chunks, hchunks, hlength, ?_⟩
    rw [perform_encodeBatch, hfound]
    simp only [henc]
  refused hunwritable := by
    obtain ⟨before, p, after, hps, hbefore, hp⟩ := Batch.exists_first_unwritable hunwritable
    have placed : ∀ q ∈ before ++ p :: after, q.Placed s.world := by
      rw [← hps]
      exact fun q hq => sound.2.placed q (mem_values_of_mapM hfound hq)
    have hplaced := placed p (List.mem_append_right _ List.mem_cons_self)
    obtain ⟨cause, hcause⟩ := Option.isSome_iff_exists.mp ((isSome_unwritable?_iff hplaced).mpr hp)
    have henc := Batch.encode_of_first sound.wellFormed placed hbefore hcause
    refine ⟨before, p, after, cause, hps, hbefore, hp,
      encode_of_unwritable sound.wellFormed hplaced hcause, ?_⟩
    rw [← hps] at henc
    rw [perform_encodeBatch, hfound]
    simp only [henc]
    rfl
  cutBack := by
    have hloop := Batch.appendOnto_eq (w := s.world) (s.bytes b) [] ps
    rw [List.append_nil] at hloop
    rw [perform_encodeBatch, hfound]
    simp only [hloop]
    cases Batch.encode s.world ps with
    | error failure => exact ⟨rfl, rfl⟩
    | ok bytes => exact ⟨rfl, by rw [Session.bytes, Registry.find?_insert_self, Option.getD_some]⟩
  alone key p hp := by
    cases henc : p.encode s.world <;> simp only [perform_encode, hp, henc]
  saved p _ chunk room := delivered s.world p chunk room

/-- **Writers append what they announced, or nothing.** After any run of steps, for any list of
particles and any buffer. -/
theorem appends_run (steps : List (Step dim spacedim)) (keys : List Nat)
    (ps : List (Particle dim spacedim)) (b : Nat)
    (hfound : keys.mapM (run ({} : Session dim spacedim) steps).2.particles.find? = some ps) :
    Appends (run ({} : Session dim spacedim) steps).2 keys ps b :=
  appends (sound_reached steps) hfound b

/-- A bare particle can be written, and the particle behind it cannot, since its values are just
being written to. -/
theorem appends_run_of_viewed :
    let steps : List (Step 0 0) := [.makePool { stride := 1 }, .make 0, .make 1, .moveTo 1 0,
      .setValues 1 [⟨1⟩], .openView 0 0 (.ofParticle 1) true, .setBuffer 0 [7]]
    let s := (run {} steps).2
    ∃ p q, [0, 1].mapM s.particles.find? = some [p, q] ∧ Appends s [0, 1] [p, q] 0 ∧
      ¬ p.Unwritable s.world ∧ q.Unwritable s.world ∧
      (s.perform (.encodeBatch [0, 1] 0)).1 =
        .batchEncoded (Attempt.refuse (.pool .storageBorrowed)) 32 1 := by
  intro steps s
  refine ⟨_, _, rfl, appends_run steps [0, 1] _ 0 rfl, ?_, ?_, rfl⟩
  · rintro ⟨i, h, _, hslot, -⟩
    cases hslot
  · exact ⟨0, _, _, rfl, rfl, .inr (.inl Nat.one_pos)⟩

end Session

end ParticleStore
