/-
ParticleStore.Proofs.Session.Sharing — two particles with one slot.

A particle whose slot was released by a bare handle keeps the handle, and in time the slot is
issued to others. They get the same handle only once the slot's generations have come
round. To say so, each step is read as a trade of all the particles' slots (`Trades`),
unless it leaves the particles as they are (`trading_ofStep`). A trade needs a new life of
a handle for each holder that comes, so no handle has more holders than it has led lives
(`Backed`), and two of them only after 2^32 releases of its slot.
-/
import ParticleStore.Proofs.Session.Keeping
import ParticleStore.Proofs.Session.Parts
import ParticleStore.Proofs.World.Rounds

namespace ParticleStore

open ParticleStore.Action Particle World StepM

variable {dim spacedim : Nat} {α β : Type} {s s' : Session dim spacedim} {key dest b : Nat}
  {w' : World} {p q : Particle dim spacedim}

namespace Session

/-- The particles have traded their slots. -/
def Trades (s s' : Session dim spacedim) : Prop :=
  Trade s.world (slotsOf s.particles.values) s'.world (slotsOf s'.particles.values)

namespace Trades

theorem refl (s : Session dim spacedim) : s.Trades s := Trade.refl ..

/-- A changed particle is put back. -/
theorem put (hasc : s.particles.Ascending) (hp : s.particles.find? key = some p)
    (hmade : q.MadeFrom p.slots s.world w') {buffers : Registry Bytes} :
    s.Trades { s with world := w', particles := s.particles.insert key q, buffers } := by
  have hbefore := slotsOf_perm (Registry.values_of_find? hasc hp)
  have hafter := slotsOf_perm (Registry.values_insert hasc key q)
  exact ((Trade.perm _ hbefore).trans (hmade.trade.append _)).trans (.perm _ hafter.symm)

/-- A particle in hand is stored, and the one that was there is dropped. -/
theorem stored (key : Nat) {sole : Prop} {ps : List (Particle dim spacedim)} (hasc : s.particles.Ascending)
    (t : Tenancy sole s.world ps) (hsub : s.particles.values ⊆ ps) (p : Particle dim spacedim) :
    Trade s.world (p.slots ++ slotsOf s.particles.values) (s.stored key p).world
      (slotsOf (s.stored key p).particles.values) := by
  have hafter := (slotsOf_perm (Registry.values_insert hasc key p)).symm
  unfold Session.stored
  cases hold : s.particles.find? key with
  | none =>
    rw [Registry.erase_of_find?_none hold] at hafter
    exact .perm _ hafter
  | some old =>
    have hbefore := (slotsOf_perm (Registry.values_of_find? hasc hold)).append_left p.slots
    have hswap : (p.slots ++ (old.slots ++ slotsOf (s.particles.erase key).values)).Perm
        (old.slots ++ (p.slots ++ slotsOf (s.particles.erase key).values)) :=
      List.perm_append_comm_assoc ..
    have hdropped := trade_without (p.slots ++ slotsOf (s.particles.erase key).values) t.wellFormed
      (t.placed old (hsub (Registry.mem_values_of_find? hold)))
    exact ((Trade.perm _ (hbefore.trans hswap)).trans hdropped).trans (.perm _ hafter)

end Trades

end Session

/-! ## Steps on particles -/

namespace StepM

/-- However a part of a step ends, `post` holds of the session then. -/
abbrev Leaves (m : StepM dim spacedim α) (s : Session dim spacedim)
    (post : Session dim spacedim → Prop) : Prop :=
  m.ComesTo s (fun _ => post) fun _ => post

/-- A step that trades the particles' slots. -/
abbrev Trading (m : StepM dim spacedim α) (s : Session dim spacedim) : Prop := m.Leaves s s.Trades

theorem leaves_iff {m : StepM dim spacedim α} {post : Session dim spacedim → Prop} :
    m.Leaves s post ↔ post (m.exec s).2 := by
  unfold Leaves ComesTo
  cases m.exec s with
  | mk result s' => cases result <;> exact Iff.rfl

theorem Leaves.imp {m : StepM dim spacedim α} {post post' : Session dim spacedim → Prop}
    (hm : m.Leaves s post) (himp : ∀ s', post s' → post' s') : m.Leaves s post' :=
  leaves_iff.mpr (himp _ (leaves_iff.mp hm))

/-- A particle comes, and is stored. -/
theorem trading_store {s₀ : Session dim spacedim} {sole : Prop} (hasc : s.particles.Ascending)
    (t : Tenancy sole s.world (p :: s.particles.values))
    (htrade : Trade s₀.world (slotsOf s₀.particles.values) s.world
      (p.slots ++ slotsOf s.particles.values)) : (store key p).Leaves s s₀.Trades := by
  have hsub := List.subset_cons_self p s.particles.values
  exact .of_exec (exec_store_of_tenancy key t hsub)
    (htrade.trans (Session.Trades.stored key hasc t hsub p))

/-- A new particle is stored. -/
theorem trading_born (sound : s.Sound False) (hmade : p.MadeFrom [] s.world w')
    (buffers : Registry Bytes) : (store key p).Leaves { s with world := w', buffers } s.Trades :=
  trading_store sound.1 (sound.2.born hmade) (hmade.trade.append _)

/-- Particles come, and are stored one after the other. -/
theorem trade_storeAll (first : Nat) {made : List (Particle dim spacedim)}
    (hasc : s.particles.Ascending) (t : Tenancy False s.world (made ++ s.particles.values)) :
    (storeAll first made).Leaves s fun s' =>
      Trade s.world (slotsOf made ++ slotsOf s.particles.values) s'.world
        (slotsOf s'.particles.values) := by
  induction made generalizing s first with
  | nil => exact .of_exec rfl (Trade.refl ..)
  | cons p rest ih =>
    have t' : Tenancy False s.world (p :: s.particles.values ++ rest) :=
      t.perm (List.perm_append_comm.cons p)
    have hsub : s.particles.values ⊆ p :: s.particles.values ++ rest := fun q hq =>
      List.mem_append_left _ (List.mem_cons_of_mem _ hq)
    have hstored := (Session.Trades.stored first hasc t' hsub p).append (slotsOf rest)
    have hlater := ih (s := s.stored first p) (first + 1)
      (Registry.ascending_insert hasc first p)
      ((Session.tenancy_stored first rest hasc t').perm List.perm_append_comm)
    have hbefore : (slotsOf (p :: rest) ++ slotsOf s.particles.values).Perm
        ((p.slots ++ slotsOf s.particles.values) ++ slotsOf rest) := by
      rw [slotsOf_cons, List.append_assoc, List.append_assoc]
      exact List.perm_append_comm.append_left _
    refine .bind_of_exec (exec_store_of_tenancy first t' hsub) (Leaves.imp hlater fun s' htrade => ?_)
    exact ((Trade.perm _ hbefore).trans hstored).trans
      ((Trade.perm _ List.perm_append_comm).trans htrade)

section Steps

variable (sound : s.Sound False)

include sound

theorem trading_revise {f : Particle dim spacedim → Action ParticleError (Particle dim spacedim)}
    (hf : ∀ p, s.particles.find? key = some p →
      (f p).Settles s.world fun q w' => q.MadeFrom p.slots s.world w') : (revise key f).Trading s :=
  .particle_bind (.refl s) fun p hp => .actOnParticle_bind (hf p hp) (fun _ => .refl s)
    fun _ _ hmade => .of_exec rfl (.put sound.1 hp hmade)

theorem trading_copy : (copy key dest).Trading s :=
  .particle_bind (.refl s) fun _ hp =>
    .actOnParticle_bind (copy_settles sound.wellFormed (sound.placed hp)) (fun _ => .refl s)
      fun _ _ hmade => (trading_born sound hmade s.buffers).bind fun _ _ => id

theorem trading_take : (take key dest).Trading s := by
  refine .particle_bind (.refl s) fun p hp => .bind_of_exec (exec_modify _) ?_
  have hbefore := slotsOf_perm (Registry.values_of_find? sound.1 hp)
  have hafter := slotsOf_perm (Registry.values_insert sound.1 key p.take.2)
  rw [slotsOf_cons, show p.take.2.slots = [] from slots_of_invalid rfl, List.nil_append] at hafter
  have hmoved : p.take.1.slots = p.slots := slots_congr rfl rfl
  refine (trading_store (s := { s with particles := s.particles.insert key p.take.2 })
    (Registry.ascending_insert sound.1 key p.take.2) (sound.taken hp) ?_).bind fun _ _ => id
  rw [hmoved]
  exact .perm _ (hbefore.trans (hafter.symm.append_left _))

theorem trading_drop : (drop key).Trading s := by
  refine .bind_of_exec exec_get ?_
  cases hp : s.particles.find? key with
  | none => exact .refl s
  | some p =>
    have hwithout := (Trade.perm _ (slotsOf_perm (Registry.values_of_find? sound.1 hp))).trans
      (trade_without _ sound.wellFormed (sound.placed hp))
    have hdrop := exec_drop (ε := ParticleError) sound.wellFormed (sound.placed hp)
    exact .bind_of_exec (exec_set _) (.actOnParticle_bind_of_exec hdrop (.of_exec rfl hwithout))

theorem trading_update : (update key b).Trading s :=
  .particle_bind (.refl s) fun _ hp => .buffer_bind <|
    .act_bind (update_settles _ sound.wellFormed (sound.placed hp)) (fun _ => .refl s)
      fun _ _ hmade => .of_exec rfl (.put sound.1 hp hmade)

theorem trading_load (chunk : Option Nat) : (load key b chunk).Trading s := by
  refine .particle_bind (.refl s) fun p hp => .buffer_bind ?_
  obtain ⟨result, left, w', he, -, hpost⟩ :=
    load_settles sound.wellFormed (sound.placed hp) chunk (s.bytes b)
  refine .bind_of_exec (exec_modifyGet _) ?_
  simp only [he]
  refine .bind_of_exec (exec_modify _) ?_
  cases result with
  | ok p' => exact .of_exec rfl (.put sound.1 hp hpost)
  | error failure =>
    obtain ⟨rfl, -⟩ := hpost
    exact .of_exec rfl (.refl s)

theorem trading_setValuesFromView (v : Nat) : (setValuesFromView key v).Trading s :=
  .particle_bind (.refl s) fun _ hp => .viewed_bind (fun _ _ => .refl s) fun values =>
    .actOnParticle_bind (setValues_settles values sound.wellFormed (sound.placed hp))
      (fun _ => .refl s) fun _ _ hmade => .of_exec rfl (.put sound.1 hp hmade)

theorem trading_decode (from? : Option Nat) : (decode key b from?).Trading s := by
  refine .positions_bind (.refl s) fun hpool => .buffer_bind <|
    .act_bind (ofBytes_settles dim spacedim _ sound.wellFormed hpool) (fun _ => .refl s) ?_
  rintro ⟨p, rest⟩ w' hmade
  exact .bind_of_exec (exec_modify _) ((trading_born sound hmade _).bind fun _ _ => id)

theorem trading_decodeBatch (from? : Option Nat) (first : Nat) :
    (decodeBatch b from? first).Trading s := by
  refine .positions_bind (.refl s) fun hpool => .buffer_bind ?_
  obtain ⟨reading, w', hrun, hreading⟩ := Batch.decodeOnto_trade
    ([] : List (Particle dim spacedim)) sound.wellFormed hpool (by simp) (s.bytes b)
  refine .bind_of_exec (exec_modifyGet _) ?_
  unfold Batch.decode
  simp only [hrun]
  refine .bind_of_exec (exec_modify _) ?_
  cases houtcome : reading.outcome with
  | error failure =>
    rw [houtcome] at hreading
    exact hreading.append (slotsOf s.particles.values)
  | ok made =>
    rw [houtcome] at hreading
    have t := sound.2.trade [] _ hreading.1 hreading.2
    have hmade := hreading.1.append (slotsOf s.particles.values)
    have hstore := trade_storeAll first
      (s := { s with world := w', buffers := s.buffers.insert b reading.rest }) sound.1 t
    have hthrough : (storeAll first made).Leaves _ s.Trades := hstore.imp fun s' => hmade.trans
    exact hthrough.bind fun _ s' htrades => .particles_bind htrades fun _ _ => .of_exec rfl htrades

/-- **A step on particles trades their slots**, and any other step leaves the particles alone. -/
theorem trading_ofStep (step : Step dim spacedim) :
    (ofStep step).Trading s ∨ ∀ key, step.touches key = false := by
  cases step with
  | make key | makeAt key =>
    exact .inl <| (trading_born sound (madeFrom_invalid rfl fun i hi => by cases hi) s.buffers).bind
      fun _ _ => id
  | decode key b from? => exact .inl (trading_decode sound from?)
  | copy key dest => exact .inl (trading_copy sound)
  | copyFrom key source =>
    exact .inl <| .particle_bind (.refl s) fun other hother => trading_revise sound fun p hp =>
      copyFrom_settles sound.wellFormed (sound.placed hp) (sound.placed hother)
  | take key dest => exact .inl (trading_take sound)
  | drop key => exact .inl (trading_drop sound)
  | update key b => exact .inl (trading_update sound)
  | load key b chunk => exact .inl (trading_load sound chunk)
  | setLocation key | setReference key | setId key =>
    exact .inl <| trading_revise sound fun p hp =>
      settles_ok rfl (madeFrom_self (sound.placed hp) rfl rfl)
  | releaseSlot key =>
    exact .inl <| trading_revise sound fun p hp =>
      releaseSlot_settles sound.wellFormed (sound.placed hp)
  | moveTo key i =>
    exact .inl <| .poolPosition_bind (.refl s) fun pl hpl => trading_revise sound fun p hp =>
      moveTo_settles sound.wellFormed (sound.placed hp) hpl
  | setValues key values =>
    exact .inl <| trading_revise sound fun p hp =>
      setValues_settles values sound.wellFormed (sound.placed hp)
  | setValuesFromView key v => exact .inl (trading_setValuesFromView sound v)
  | decodeBatch b from? first => exact .inl (trading_decodeBatch sound from? first)
  | _ => exact .inr fun _ => rfl

end Steps

end StepM

/-! ## Runs -/

namespace Session

variable {past new history : List SlotEvent}

/-- No handle has more holders than it has led lives. -/
def Backed (history : List SlotEvent) (s : Session dim spacedim) : Prop :=
  ∀ slot : HeldSlot, (slotsOf s.particles.values).count slot ≤
    rounds slot.2 (releases history slot.1 slot.2.index.toNat) + s.world.lifeOf slot

theorem backed_empty : ({} : Session dim spacedim).Backed [] := fun _ => Nat.zero_le _

/-- Holders that trade need new lives for new holders. -/
theorem Backed.trades (backed : s.Backed past) (htrades : s.Trades s') : s'.Backed (past ++ new) := by
  intro slot
  have hbefore := backed slot
  have hcount := Trade.count_add_le htrades slot
  have hle : releases past slot.1 slot.2.index.toNat ≤
      releases (past ++ new) slot.1 slot.2.index.toNat := by
    rw [releases_append]
    exact Nat.le_add_right _ _
  have hrounds := rounds_mono (h := slot.2) hle
  omega

/-- Where the holders stay, no lives are lost. -/
theorem Backed.stays (backed : s.Backed past) (rec : Recorded past s.world)
    (rec' : Recorded (past ++ new) s'.world)
    (hvalues : s'.particles.values.Perm s.particles.values) : s'.Backed (past ++ new) := by
  intro slot
  rw [(slotsOf_perm hvalues).count_eq]
  exact Nat.le_trans (backed slot) (rec.lives_le rec')

/-- **Every step keeps the holders backed.** -/
theorem Backed.perform (backed : s.Backed past) (sound : s.Sound False) (rec : Recorded past s.world)
    (step : Step dim spacedim) (rec' : Recorded (past ++ new) (s.perform step).2.world) :
    (s.perform step).2.Backed (past ++ new) := by
  rcases trading_ofStep sound step with htrading | hout
  · refine backed.trades ?_
    rw [perform_snd]
    exact leaves_iff.mp htrading
  · refine backed.stays rec rec' (Registry.values_perm sound.1 (sound.perform step).1 fun key => ?_)
    rw [perform_snd]
    exact keeps_ofStep (hout key) s

/-- **Every run keeps them backed**, as its own history goes on. -/
theorem Backed.run (backed : s.Backed past) (sound : s.Sound False)
    (leads : ({} : World).Leads PoolCall.isAny past s.world) (steps : List (Step dim spacedim)) :
    ∃ history, ({} : World).Leads PoolCall.isAny history (s.run steps).2.world ∧
      (s.run steps).2.Backed history := by
  induction steps generalizing s past with
  | nil => exact ⟨past, leads, backed⟩
  | cons step rest ih =>
    obtain ⟨new, more⟩ := (guided_any step s).leads
    rw [← perform_snd] at more
    have leads' := leads.trans more
    exact ih (backed.perform sound (recorded_of_leads leads) step (recorded_of_leads leads'))
      (sound.perform step) leads'

theorem backed_reached (steps : List (Step dim spacedim)) :
    ∃ history, ({} : World).Leads PoolCall.isAny history (run {} steps).2.world ∧
      (run ({} : Session dim spacedim) steps).2.Backed history :=
  backed_empty.run sound_empty (.refl _) steps

/-- A slot that was not released 2^32 times is held by one particle at most. -/
theorem Backed.sole (backed : s.Backed history) (rec : Recorded history s.world)
    (hasc : s.particles.Ascending) (hne : key ≠ dest) (hp : s.particles.find? key = some p)
    (hq : s.particles.find? dest = some q) {slot : HeldSlot}
    (hlt : releases history slot.1 slot.2.index.toNat < UInt32.size) (hslot : slot ∈ p.slots) :
    slot ∉ q.slots := by
  intro hslot'
  have hvalues := slotsOf_perm (Registry.values_of_find? hasc hp)
  have hmem : q ∈ (s.particles.erase key).values :=
    Registry.mem_values_of_find? ((Registry.find?_erase_of_ne _ hne.symm).trans hq)
  have hfirst : 0 < p.slots.count slot := List.count_pos_iff.mpr hslot
  have hsecond : 0 < (slotsOf (s.particles.erase key).values).count slot :=
    List.count_pos_iff.mpr (List.mem_flatMap.mpr ⟨q, hmem, hslot'⟩)
  have hcount := Nat.le_trans (backed slot) (rec.lives_le_one hlt)
  rw [hvalues.count_eq, slotsOf_cons, List.count_append] at hcount
  omega

end Session

end ParticleStore
