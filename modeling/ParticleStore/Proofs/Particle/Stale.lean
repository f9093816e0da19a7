/-
ParticleStore.Proofs.Particle.Stale — a particle whose slot was released behind its back.

Such a particle still takes itself for the holder of a slot, so every operation takes the
branch for a particle with values, and only the pool's test of its handle is left between
it and whoever owns the slot by now. The test comes before anything is changed: what reads
or writes values is refused, whichever pool the values are to go to. Giving the slot back
is the one thing that succeeds; it forgets the handle, with a warning, and releases
nothing. Each lemma is the operation's own equation, read for such a handle.
-/
import ParticleStore.Proofs.Particle.Streams

namespace ParticleStore

open ParticleStore.Action World

variable {dim spacedim : Nat} {w w' : World} {i j : Nat} {pl plj tg : Pool} {h k : Handle}
  {p source : Particle dim spacedim} {new : List Scalar}

/-- The cause for which a particle is refused if its slot was released. -/
def ParticleError.stale : ParticleError := .pool (.invalidHandle .stale)

/-- The event of giving back a slot that was released before. -/
def Event.staleHandle (id : ParticleId) : Event := .releaseFailed id (.invalidHandle .stale)

namespace Particle

/-- The particle holds a handle of the pool at position `i` that the pool refuses as stale. -/
structure Stale (w : World) (p : Particle dim spacedim) (i : Nat) (h : Handle) (pl : Pool) :
    Prop where
  slot : p.slot? = some (i, h)
  pool : w.pool? i = some pl
  flawed : pl.flawed? h = some (.invalidHandle .stale)

/-- The world once the particle's handle is forgotten. -/
theorem worldWithout_of_stale (stale : p.Stale w i h pl) :
    p.worldWithout w = { w with events := w.events ++ [.staleHandle p.id] } := by
  unfold worldWithout
  simp only [stale.slot, stale.pool, Option.bind_some, stale.flawed]
  rfl

section Stale

variable (stale : p.Stale w i h pl) (wf : w.WellFormed)

include stale wf

/-! ## Reading and writing -/

theorem values_of_stale : p.values w = Attempt.refuse .stale := by
  rw [values_of_slot stale.slot stale.pool (wf.pool i pl stale.pool), stale.flawed]
  rfl

theorem exec_overwrite_of_stale : (p.overwrite new).exec w = (Attempt.refuse .stale, w) := by
  rw [exec_overwrite stale.slot stale.pool (wf.pool i pl stale.pool), stale.flawed]
  rfl

/-- Values are refused for their number, or else for the handle. -/
theorem exec_setValues_of_stale :
    (p.setValues new).exec w =
      (Attempt.refuse ((mismatch? new.length pl.stride).getD .stale), w) := by
  rw [exec_setValues_of_slot stale.slot stale.pool (wf.pool i pl stale.pool), stale.flawed]
  cases mismatch? new.length pl.stride <;> rfl

/-- No view is opened on the particle, in any pool. -/
theorem flawed?_of_stale (placed : p.Placed w) (hj : w.pool? j = some plj) :
    ∃ flaw, plj.flawed? h = some (.invalidHandle flaw) := by
  obtain ⟨q, hq, hid⟩ := placed.slot stale.slot
  rw [stale.pool] at hq
  cases hq
  by_cases hji : j = i
  · subst hji
    rw [stale.pool] at hj
    cases hj
    exact ⟨_, stale.flawed⟩
  · cases hloc : plj.locate h with
    | error flaw => exact ⟨flaw, by rw [Pool.flawed?, hloc]⟩
    | ok _ =>
      -- a handle is good in the pool that issued it only
      obtain ⟨hpool, -, -⟩ := (Pool.locate_eq_ok_iff (wf.pool j plj hj)).mp hloc
      exact absurd (wf.id_inj j i plj pl hj stale.pool (hpool.symm.trans hid)) hji

/-! ## Copying and moving -/

theorem exec_copy_of_stale :
    p.copy.exec w =
      (Attempt.refuse (if pl.isViewed then .pool .storageBorrowed else .stale), w) := by
  rw [exec_copy stale.slot stale.pool (wf.pool i pl stale.pool), stale.flawed, Pool.viewed?]
  cases pl.isViewed <;> rfl

/-- A copy would go to the slot that is not the particle's any more. -/
theorem exec_copyFrom_within_of_stale (hs : source.slot? = some (i, k)) :
    ∃ cause, (p.copyFrom source).exec w = (Attempt.refuse cause, w) := by
  rw [exec_copyFrom_within hs stale.slot stale.pool (wf.pool i pl stale.pool), stale.flawed]
  cases ((pl.flawed? k).or pl.written?).map ParticleError.pool with
  | none => exact ⟨_, rfl⟩
  | some cause => exact ⟨cause, rfl⟩

/-- Nor can the particle be copied over another one. -/
theorem exec_copyFrom_source_of_stale {q : Particle dim spacedim} (placed : q.Placed w) :
    ∃ cause, (q.copyFrom p).exec w = (Attempt.refuse cause, w) := by
  have wfp := wf.pool i pl stale.pool
  by_cases hk : ∃ k, q.slot? = some (i, k)
  · obtain ⟨k, hk⟩ := hk
    rw [exec_copyFrom_within stale.slot hk stale.pool wfp, stale.flawed]
    exact ⟨_, rfl⟩
  · rw [not_exists] at hk
    rw [exec_copyFrom_across wf placed stale.slot hk stale.pool, stale.flawed]
    cases pl.viewed? with
    | none => exact ⟨_, rfl⟩
    | some cause => exact ⟨_, rfl⟩

/-- A copy of a particle without a slot takes the place, and the handle is forgotten. -/
theorem exec_copyFrom_none_of_stale (placed : p.Placed w) (hs : source.slot? = none) :
    (p.copyFrom source).exec w =
      (.ok { source with handle := .invalid },
        { w with events := w.events ++ [.staleHandle p.id] }) := by
  rw [exec_copyFrom_of_none wf placed hs, worldWithout_of_stale stale]

/-- A copy from another pool takes a slot there, and the handle is forgotten. -/
theorem exec_copyFrom_across_of_stale (placed : p.Placed w) (hs : source.slot? = some (j, k))
    (hj : w.pool? j = some plj) (hji : j ≠ i) :
    (p.copyFrom source).exec w =
      decided ((plj.viewed?.or ((plj.flawed? k).or plj.full?)).map .pool) w
        { source with handle := plj.nextHandle }
        { w.setPool j (plj.filled (plj.block k.index.toNat)) with
          events := w.events ++ [.staleHandle p.id] } := by
  have hk : ∀ k, p.slot? ≠ some (j, k) := by
    intro k hk
    rw [stale.slot] at hk
    cases hk
    exact hji rfl
  have stale' : p.Stale (w.setPool j (plj.filled (plj.block k.index.toNat))) i h pl :=
    ⟨stale.slot, (pool?_setPool_of_ne (Ne.symm hji)).trans stale.pool, stale.flawed⟩
  rw [exec_copyFrom_across wf placed hs hk hj, worldWithout_of_stale stale']
  rfl

/-- The values to be moved cannot be read. -/
theorem exec_moveTo_of_stale {target : Nat} (ht : w.pool? target = some tg) :
    (p.moveTo target).exec w =
      (Attempt.refuse ((mismatch? pl.stride tg.stride).getD .stale), w) := by
  rw [exec_moveTo wf stale.slot stale.pool ht, stale.flawed]
  cases mismatch? pl.stride tg.stride <;> rfl

/-! ## Giving the slot back -/

theorem exec_releaseSlot_of_stale {ε : Type} (placed : p.Placed w) :
    (p.releaseSlot : Action ε _).exec w =
      (.ok { p with handle := .invalid }, { w with events := w.events ++ [.staleHandle p.id] }) := by
  rw [exec_releaseSlot wf placed, worldWithout_of_stale stale]

theorem exec_drop_of_stale {ε : Type} (placed : p.Placed w) :
    (p.drop : Action ε Unit).exec w =
      (.ok (), { w with events := w.events ++ [.staleHandle p.id] }) := by
  rw [exec_drop wf placed, worldWithout_of_stale stale]

/-! ## Records -/

theorem encode_of_stale : p.encode w = Attempt.refuse .stale := by
  have hhas : p.hasProperties = true := by rw [hasProperties, stale.slot]; rfl
  unfold encode toRecord
  rw [if_pos hhas, values_of_stale stale wf]
  rfl

theorem save_of_stale (chunk room : Option Nat) :
    p.save w chunk room = (Attempt.refuse .stale, []) := by
  unfold save
  rw [encode_of_stale stale wf]
  rfl

/-- No record is taken over from a buffer: whatever it holds, there is a cause to refuse it. -/
theorem exec_update_of_stale (input : Bytes) :
    ∃ cause, (p.update input).exec w = (Attempt.refuse cause, w) ∧
      ∀ (r : Record dim spacedim) rest, (Record.decoder dim spacedim).run input = .ok (r, rest) →
        r.values.length = pl.stride → cause = .stale := by
  cases hdecode : (Record.decoder dim spacedim).run input with
  | error cause =>
    exact ⟨_, exec_update_error hdecode, fun r rest hr => by cases hr⟩
  | ok result =>
    obtain ⟨r, rest⟩ := result
    rw [exec_update_of_slot hdecode stale.slot stale.pool (wf.pool i pl stale.pool), stale.flawed]
    refine ⟨(mismatch? r.values.length pl.stride).getD .stale, ?_, fun r' rest' hr hv => ?_⟩
    · cases mismatch? r.values.length pl.stride <;> rfl
    · cases hr
      rw [mismatch?_eq_none_iff.mpr hv]
      rfl

/-- From a stream nothing but a record without values is taken over. The handle stays then, and the
pools are left alone. -/
theorem run_load_of_stale (placed : p.Placed w) (chunk : Option Nat) (source : Bytes) :
    (∃ cause left, (p.load chunk source).run w = ((Attempt.refuse cause, left), w)) ∨
      ∃ (r : Record dim spacedim) (left : Bytes),
        (Record.decoder dim spacedim).run source = .ok (r, left) ∧ r.values = [] ∧
          (p.load chunk source).run w = ((.ok (p.relabelled r), left), w) := by
  cases hload : (p.load chunk source).run w with
  | mk outcome w' =>
    obtain ⟨result, left⟩ := outcome
    cases result with
    | error failure =>
      obtain ⟨result', left', w'', heq, -, hsettled⟩ := load_settles wf placed chunk source
      rw [hload] at heq
      cases heq
      obtain ⟨rfl, cause, rfl⟩ := hsettled
      exact .inl ⟨cause, left, rfl⟩
    | ok p' =>
      rw [run_load] at hload
      split at hload
      · cases hload
      · rename_i bytes _ hreceive
        split at hload
        · cases hload
        · rename_i r excess hdecode
          obtain ⟨henc, rfl⟩ := eq_append_of_receiveRecord hreceive hdecode
          by_cases hv : r.values = []
          · rw [exec_absorb_of_empty hv] at hload
            cases hload
            exact .inr ⟨r, left, Record.run_decoder_eq_ok_iff.mpr ⟨bytes, henc, rfl⟩, hv, rfl⟩
          · rw [exec_absorb_of_slot hv stale.slot stale.pool (wf.pool i pl stale.pool),
              stale.flawed] at hload
            cases hmismatch : mismatch? r.values.length pl.stride with
            | none =>
              rw [hmismatch] at hload
              cases hload
            | some cause =>
              rw [hmismatch] at hload
              cases hload

end Stale

end Particle

end ParticleStore
