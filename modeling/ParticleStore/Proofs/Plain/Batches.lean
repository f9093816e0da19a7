/-
ParticleStore.Proofs.Plain.Batches — batches of particles as batches of plain ones.

Particles that are read from a buffer are stored one after the other, and each time the
ones still in hand keep their values while the particle that was under the key is dropped.
Where a record cannot be placed, the particles made so far are dropped again: their slots
come and go, and the plain session is told nothing of it.
-/
import ParticleStore.Proofs.Plain.Steps

namespace ParticleStore

open ParticleStore.Action Particle World StepM

variable {dim spacedim : Nat} {s : Session dim spacedim} {key b : Nat}
  {ps : List (Particle dim spacedim)}

namespace Session

/-- Looking keys up one after the other, and then looking at what is found. -/
theorem mapM_map {α β : Type} (f : α → β) (g : Nat → Option α) (keys : List Nat) :
    keys.mapM (Option.map f ∘ g) = (keys.mapM g).map (List.map f) := by
  induction keys with
  | nil => rfl
  | cons key rest ih =>
    rw [List.mapM_cons, List.mapM_cons, ih, Function.comp_apply]
    cases g key with
    | none => rfl
    | some a => cases rest.mapM g <;> rfl

/-- What is found under keys is there. -/
theorem mem_values_of_mapM {keys : List Nat} {p : Particle dim spacedim}
    (hfound : keys.mapM s.particles.find? = some ps) (hp : p ∈ ps) : p ∈ s.particles.values := by
  induction keys generalizing ps with
  | nil =>
    cases hfound
    cases hp
  | cons key rest ih =>
    rw [List.mapM_cons] at hfound
    cases hkey : s.particles.find? key with
    | none =>
      rw [hkey] at hfound
      cases hfound
    | some q =>
      cases hrest : rest.mapM s.particles.find? with
      | none =>
        rw [hkey, hrest] at hfound
        cases hfound
      | some qs =>
        rw [hkey, hrest] at hfound
        cases hfound
        rcases List.mem_cons.mp hp with rfl | hlater
        · exact Registry.mem_values_of_find? hkey
        · exact ih hrest hlater

theorem found_particles (keys : List Nat) (f : List (PlainParticle dim spacedim) →
      Answer dim spacedim × PlainSession dim spacedim) :
    s.plain.found "particle" (keys.mapM s.plain.particles) f =
      match keys.mapM s.particles.find? with
      | some ps => f (ps.map (Particle.plain s.views.values s.world))
      | none => (.unknown "particle", s.plain) := by
  show s.plain.found "particle" (keys.mapM (Option.map _ ∘ s.particles.find?)) f = _
  rw [mapM_map]
  cases keys.mapM s.particles.find? <;> rfl

/-- What particles show that are found under keys. -/
theorem snapshots_plain {keys : List Nat} (sound : s.Sound True)
    (hfound : keys.mapM s.particles.find? = some ps) :
    (ps.map (·.snapshot s.world)).map Snapshot.veiled =
      (ps.map (Particle.plain s.views.values s.world)).map
        (PlainParticle.snapshot s.world.plain) := by
  rw [List.map_map, List.map_map]
  refine List.map_congr_left fun p hp => ?_
  exact snapshot_plain sound.wellFormed (Owning.of_tenancy sound.2 (mem_values_of_mapM hfound hp))

/-- What was taken is given back, so that the same slots are owned as before. -/
theorem plain_gaveUp {w' : World} (sound : s.Sound True) (viewing : s.Viewing)
    (t : Trade s.world [] w' []) :
    ({ s with world := w' } : Session dim spacedim).plain = s.plain ∧
      ({ s with world := w' } : Session dim spacedim).Viewing := by
  have howns : s.world.Owns ([] ++ slotsOf s.particles.values) := sound.2.owns trivial
  obtain ⟨howns', -⟩ := t.owns howns
  have hsame := plain_eq_of_owns t.evolves howns howns'
  obtain ⟨hplain, hviewing⟩ := plain_evolved viewing t.evolves fun q hq => sound.2.frame [] t hq
  refine ⟨hplain.trans ?_, hviewing⟩
  rw [hsame]
  rfl

/-- Particles in hand are stored one after the other. -/
theorem plain_storedAll (key : Nat) (hasc : s.particles.Ascending)
    (t : Tenancy True s.world (ps ++ s.particles.values)) (viewing : s.Viewing) :
    ∃ s' : Session dim spacedim, (storeAll key ps).exec s = (.ok ⟨⟩, s') ∧ s'.Sound True ∧
      s'.Viewing ∧
      s'.plain = s.plain.storeAll key (ps.map (Particle.plain s.views.values s.world)) := by
  induction ps generalizing s key with
  | nil => exact ⟨s, rfl, ⟨hasc, t⟩, viewing, rfl⟩
  | cons p rest ih =>
    have t' : Tenancy True s.world (p :: s.particles.values ++ rest) :=
      t.perm (List.perm_append_comm.cons p)
    have hstore := exec_store_of_tenancy (p := p) key t' (by
      intro q hq
      exact List.mem_append_left _ (List.mem_cons_of_mem _ hq))
    obtain ⟨hplain, hviewing, hkept⟩ := plain_stored key rest hasc t' viewing
    obtain ⟨s', hrest, sound, hviewing', hplain'⟩ := ih (s := s.stored key p) (key + 1)
      (Registry.ascending_insert hasc key p)
      ((tenancy_stored key rest hasc t').perm List.perm_append_comm) hviewing
    refine ⟨s', ?_, sound, hviewing', ?_⟩
    · unfold storeAll
      rw [StepM.exec_bind, hstore]
      exact hrest
    · have hsame : rest.map (Particle.plain (s.stored key p).views.values (s.stored key p).world) =
          rest.map (Particle.plain s.views.values s.world) := List.map_congr_left hkept
      rw [hplain', hsame, hplain]
      rfl

end Session

namespace StepM

open Session

section Steps

variable (sound : s.Sound True) (viewing : s.Viewing)

include sound viewing

theorem encodeBatch_agrees (keys : List Nat) :
    Agrees (finish ((encodeBatch keys b).exec s)) (s.plain.encodeBatch keys b) := by
  unfold encodeBatch PlainSession.encodeBatch
  rw [exec_bind, exec_particles, found_particles]
  cases hfound : keys.mapM s.particles.find? with
  | none => exact ⟨rfl, rfl, viewing⟩
  | some ps =>
    have owning : ∀ p ∈ ps, p.Owning s.world := fun p hp =>
      Owning.of_tenancy sound.2 (mem_values_of_mapM hfound hp)
    have hencode : PlainParticle.encodeAll s.plain.pools
        (ps.map (Particle.plain s.views.values s.world)) = _ :=
      (Batch.encode_plain sound.wellFormed owning).symm
    have hwidth : (ps.map (Particle.plain s.views.values s.world)).foldr
        (fun q total => q.byteWidth s.plain.pools + total) 0 = _ :=
      (Batch.byteWidth_plain sound.wellFormed owning).symm
    simp only [hencode, hwidth]
    rw [exec_world_bind, exec_buffer_bind]
    cases Batch.encode s.world ps with
    | error failure => exact ⟨rfl, rfl, viewing⟩
    | ok bytes => exact ⟨rfl, plain_fill _, viewing.ascending, viewing.viewed⟩

theorem decodeBatch_agrees (from? : Option Nat) (first : Nat) :
    Agrees (finish ((decodeBatch b from? first).exec s)) (s.plain.decodeBatch b from? first) := by
  unfold decodeBatch PlainSession.decodeBatch
  rw [exec_positions_bind]
  by_cases hpool : ∀ i, from? = some i → (s.world.pool? i).isSome
  · rw [if_pos hpool, if_pos (isSome_pools.mpr hpool), exec_buffer_bind, exec_bind, exec_modifyGet]
    unfold Batch.decode
    obtain ⟨reading, w', hrun, hreading⟩ :=
      Batch.decodeOnto_trade ([] : List (Particle dim spacedim)) sound.wellFormed
        (fun i hi => Option.isSome_iff_exists.mp (hpool i hi)) (by simp) (s.bytes b)
    obtain ⟨reading', w'', hrun', hmirrors⟩ :=
      Batch.decodeOnto_mirrors [] viewing.viewed (by simpa using sound.2) hpool (s.bytes b)
    rw [hrun] at hrun'
    cases hrun'
    have hmirrors' : PlainParticle.decodeAll from? s.plain.pools [] (s.plain.buffers b) = _ :=
      hmirrors
    simp only [hrun, hmirrors']
    rw [exec_keepBuffer_bind]
    cases houtcome : reading.outcome with
    | error failure =>
      rw [houtcome] at hreading
      obtain ⟨hplain, hviewing⟩ := plain_gaveUp
        (s := { s with buffers := s.buffers.insert b reading.rest }) ⟨sound.1, sound.2⟩
        ⟨viewing.ascending, viewing.viewed⟩ hreading
      exact ⟨rfl, hplain.trans (plain_fill _), hviewing⟩
    | ok made =>
      rw [houtcome] at hreading
      have t := sound.2.trade [] _ hreading.1 hreading.2
      obtain ⟨hplain, hviewing⟩ := plain_evolved
        (s := { s with buffers := s.buffers.insert b reading.rest })
        ⟨viewing.ascending, viewing.viewed⟩ hreading.1.evolves
        fun q hq => sound.2.frame [] hreading.1 hq
      obtain ⟨s', hexec, sound', hviewing', hstored⟩ := plain_storedAll first
        (s := { s with world := w', buffers := s.buffers.insert b reading.rest }) sound.1 t hviewing
      rw [hplain, plain_fill] at hstored
      simp only [List.length_map]
      rw [exec_bind, hexec]
      simp only
      rw [exec_bind, exec_particles]
      have hstored' : s'.plain = ({ s.plain with pools := w'.plain }.fill b reading.rest).storeAll
          first (made.map (Particle.plain s.views.values w')) := hstored
      rw [← hstored', found_particles]
      cases hfound : ((List.range made.length).map (first + ·)).mapM s'.particles.find? with
      | none => exact ⟨rfl, rfl, hviewing'⟩
      | some stored =>
        refine ⟨?_, rfl, hviewing'⟩
        exact congrArg (Answer.batchDecoded · _) (snapshots_plain sound' hfound)
  · rw [if_neg hpool, if_neg fun h => hpool (isSome_pools.mp h)]
    exact ⟨rfl, rfl, viewing⟩

end Steps

end StepM

end ParticleStore
