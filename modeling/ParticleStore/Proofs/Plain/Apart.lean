/-
ParticleStore.Proofs.Plain.Apart — what one plain particle is given, no other one sees.

`PlainSession.Writes m step key` lists the keys whose particle a step may change: those
that the step names as its target, and for a write through a view the particle whose
values the view shows. Under every other key `perform_apart` finds the particle as it
was. Opening and closing views marks a particle's values as lent or not, and leaves the
values alone, so that particles are compared without the mark (`unlent`).
-/
import ParticleStore.Proofs.Plain.Session

namespace ParticleStore

variable {dim spacedim : Nat} {key k i : Nat}

namespace PlainParticle

variable {q : PlainParticle dim spacedim}

/-- The particle, whether its values are lent or not. -/
def unlent (q : PlainParticle dim spacedim) : PlainParticle dim spacedim :=
  { q with own := q.own.map fun own => { own with lent := false } }

theorem unlent_lend (lent : Bool) :
    ({ q with own := q.own.map fun own => { own with lent } } : PlainParticle dim spacedim).unlent =
      q.unlent := by
  unfold unlent
  cases q.own <;> rfl

theorem unlent_returned : (q.returned i).unlent = q.unlent := by
  unfold returned
  split
  · exact unlent_lend false
  · rfl

theorem written_eq {values : List Scalar} (hfree : q.pool = some i → ∀ own, q.own = some own →
      own.lent = false) : q.written i values = q := by
  unfold written
  split
  · rename_i hpool
    obtain ⟨location, reference, id, pool, own⟩ := q
    cases own with
    | none => rfl
    | some own => simp [hfree hpool own rfl]
  · rfl

end PlainParticle

namespace PlainSession

variable {m : PlainSession dim spacedim} {q : PlainParticle dim spacedim}
  {qs : List (PlainParticle dim spacedim)}

/-- The particle under a key, whether its values are lent or not. -/
def shown? (m : PlainSession dim spacedim) (key : Nat) : Option (PlainParticle dim spacedim) :=
  (m.particles key).map PlainParticle.unlent

/-- The step may change the particle under the key. -/
def Writes (m : PlainSession dim spacedim) : Step dim spacedim → Nat → Prop
  | .make dest, key | .makeAt dest .., key | .decode dest .., key | .copy _ dest, key |
    .copyFrom dest _, key | .drop dest, key | .update dest _, key | .load dest .., key |
    .setLocation dest _, key | .setReference dest _, key | .setId dest _, key |
    .releaseSlot dest, key | .moveTo dest _, key | .setValues dest _, key |
    .setValuesFromView dest _, key | .overwrite dest _, key => key = dest
  | .take source dest, key => key = source ∨ key = dest
  | .decodeBatch b from? first, key =>
    ∃ (made : List (PlainParticle dim spacedim)) (pools : PlainPools) (rest : Bytes),
      PlainParticle.decodeAll from? m.pools [] (m.buffers b) = (.ok (made, pools), rest) ∧
        first ≤ key ∧ key < first + made.length
  | .writeView v _, key => ∃ view q own,
    m.views v = some view ∧ view.writable = true ∧ m.particles key = some q ∧
      q.pool = some view.pool ∧ q.own = some own ∧ own.lent = true
  | _, _ => False

/-! ## Parts of steps -/

theorem shown?_found {α : Type} {what : String} {o : Option α}
    {f : α → Answer dim spacedim × PlainSession dim spacedim}
    (hf : ∀ a, o = some a → (f a).2.shown? key = m.shown? key) :
    (m.found what o f).2.shown? key = m.shown? key := by
  cases o with
  | none => rfl
  | some a => exact hf a rfl

theorem shown?_put_of_ne (hne : key ≠ k) : (m.put k q).shown? key = m.shown? key := by
  show Option.map _ (Function.update m.particles k (some q) key) = _
  rw [Function.update_of_ne hne, shown?]

theorem shown?_store_of_ne (hne : key ≠ k) : (m.store k q).shown? key = m.shown? key := by
  unfold store
  cases m.particles k with
  | none => exact shown?_put_of_ne hne
  | some old => exact shown?_put_of_ne hne

theorem shown?_storeAll (hout : ¬ (k ≤ key ∧ key < k + qs.length)) :
    (m.storeAll k qs).shown? key = m.shown? key := by
  induction qs generalizing m k with
  | nil => rfl
  | cons q rest ih =>
    rw [List.length_cons] at hout
    unfold storeAll
    rw [ih (by omega), shown?_store_of_ne (by omega)]

theorem shown?_revise_of_ne (hne : key ≠ k)
    {f : PlainParticle dim spacedim →
      Attempt ParticleError (PlainParticle dim spacedim × PlainPools)} :
    (m.revise k f).2.shown? key = m.shown? key := by
  refine shown?_found fun q _ => ?_
  cases f q with
  | error failure => rfl
  | ok result => exact shown?_put_of_ne hne

/-- Closing a view gives values back and changes none. -/
theorem shown?_shutView : (m.shutView k).shown? key = m.shown? key := by
  unfold shutView
  cases m.views k with
  | none => rfl
  | some v =>
    show Option.map _ ((if v.writable then _ else _ : Nat → Option _) key) = _
    split
    · rw [shown?, Option.map_map]
      exact Option.map_congr fun q _ => PlainParticle.unlent_returned
    · rfl

theorem shown?_openView {dest : Nat} {writable : Bool} :
    (m.openView dest i k writable).2.shown? key = m.shown? key := by
  refine shown?_found fun _ _ => shown?_found fun q hq => ?_
  cases m.viewRefused? i q writable with
  | some cause => rfl
  | none =>
    refine shown?_shutView.trans ?_
    by_cases hk : key = k
    · subst hk
      show Option.map _ (Function.update m.particles key (some _) key) = _
      rw [Function.update_self, shown?, hq, Option.map_some, PlainParticle.unlent_lend]
      rfl
    · exact shown?_put_of_ne hk

theorem shown?_writeView {v : Nat} {values : List Scalar}
    (hapart : ¬ m.Writes (.writeView v values) key) :
    (m.writeView v values).2.shown? key = m.shown? key := by
  refine shown?_found fun view hview => ?_
  by_cases hwritable : view.writable = true
  · rw [if_pos hwritable]
    show Option.map _ ((m.particles key).map _) = _
    rw [shown?, Option.map_map]
    refine Option.map_congr fun q hq => ?_
    have hfree : q.pool = some view.pool → ∀ own, q.own = some own → own.lent = false :=
      fun hpool own hown => Bool.eq_false_iff.mpr fun hlent =>
        hapart ⟨view, q, own, hview, hwritable, hq, hpool, hown, hlent⟩
    rw [Function.comp_apply, PlainParticle.written_eq hfree]
  · rw [if_neg hwritable]

/-! ## Bytes -/

theorem shown?_decode {b : Nat} {from? : Option Nat} (hne : key ≠ k) :
    (m.decode k b from?).2.shown? key = m.shown? key := by
  unfold decode
  split
  · cases (Record.decoder dim spacedim).run (m.buffers b) with
    | error cause => rfl
    | ok result =>
      simp only
      cases PlainParticle.ofRecord m.pools from? result.1 with
      | error failure => rfl
      | ok made => exact shown?_store_of_ne hne
  · rfl

theorem shown?_update {b : Nat} (hne : key ≠ k) : (m.update k b).2.shown? key = m.shown? key := by
  refine shown?_found fun q _ => ?_
  cases (Record.decoder dim spacedim).run (m.buffers b) with
  | error cause => rfl
  | ok result =>
    simp only
    cases q.update m.pools result.1 with
    | error failure => rfl
    | ok revised => exact shown?_put_of_ne hne

theorem shown?_load {b : Nat} {chunk : Option Nat} (hne : key ≠ k) :
    (m.load k b chunk).2.shown? key = m.shown? key := by
  refine shown?_found fun q _ => ?_
  obtain ⟨outcome, left⟩ := q.load m.pools chunk (m.buffers b)
  cases outcome with
  | error failure => rfl
  | ok revised => exact shown?_put_of_ne hne

theorem shown?_encode {b : Nat} : (m.encode k b).2.shown? key = m.shown? key := by
  refine shown?_found fun q _ => ?_
  cases q.encode m.pools <;> rfl

theorem shown?_encodeBatch {keys : List Nat} {b : Nat} :
    (m.encodeBatch keys b).2.shown? key = m.shown? key := by
  refine shown?_found fun qs _ => ?_
  simp only
  cases PlainParticle.encodeAll m.pools qs <;> rfl

theorem shown?_decodeBatch {b first : Nat} {from? : Option Nat}
    (hapart : ¬ m.Writes (.decodeBatch b from? first) key) :
    (m.decodeBatch b from? first).2.shown? key = m.shown? key := by
  unfold decodeBatch
  split
  · cases hdecode : PlainParticle.decodeAll from? m.pools [] (m.buffers b) with
    | mk outcome left =>
      cases outcome with
      | error failure => rfl
      | ok result =>
        have hout : ¬ (first ≤ key ∧ key < first + result.1.length) := fun hin =>
          hapart ⟨result.1, result.2, left, hdecode, hin⟩
        refine Eq.trans (shown?_found fun _ _ => rfl) (shown?_storeAll
          (m := { m with pools := result.2 }.fill b left) hout)
  · rfl

/-! ## All steps -/

/-- A step changes no particle but those that it names. -/
theorem perform_apart {step : Step dim spacedim} (hapart : ¬ m.Writes step key) :
    (m.perform step).2.shown? key = m.shown? key := by
  cases step with
  | openView dest i name writable =>
    cases name with
    | kept k => rfl
    | ofParticle k => exact shown?_openView
  | reserve i n => exact shown?_found fun _ _ => rfl
  | readView v => exact shown?_found fun _ _ => rfl
  | writeView v values => exact shown?_writeView hapart
  | closeView v => exact shown?_shutView
  | make dest => exact shown?_store_of_ne hapart
  | makeAt dest location reference id => exact shown?_store_of_ne hapart
  | decode dest b from? => exact shown?_decode hapart
  | copy k dest =>
    refine shown?_found fun q _ => ?_
    cases q.copy m.pools with
    | error failure => rfl
    | ok result => exact shown?_store_of_ne hapart
  | copyFrom dest source => exact shown?_found fun _ _ => shown?_revise_of_ne hapart
  | take source dest =>
    obtain ⟨hsource, hdest⟩ := not_or.mp hapart
    exact shown?_found fun _ _ => (shown?_store_of_ne hdest).trans (shown?_put_of_ne hsource)
  | drop dest =>
    have hne : key ≠ dest := hapart
    unfold perform
    simp only
    cases m.particles dest with
    | none => rfl
    | some q =>
      show Option.map _ (Function.update m.particles dest none key) = _
      rw [Function.update_of_ne hne, shown?]
  | encode k b => exact shown?_encode
  | update dest b => exact shown?_update hapart
  | save k b chunk room => exact shown?_found fun _ _ => rfl
  | load dest b chunk => exact shown?_load hapart
  | setLocation dest location => exact shown?_revise_of_ne hapart
  | setReference dest reference => exact shown?_revise_of_ne hapart
  | setId dest id => exact shown?_revise_of_ne hapart
  | releaseSlot dest => exact shown?_revise_of_ne hapart
  | moveTo dest i => exact shown?_found fun _ _ => shown?_revise_of_ne hapart
  | setValues dest values => exact shown?_revise_of_ne hapart
  | setValuesFromView dest v =>
    exact shown?_found fun _ _ => shown?_found fun _ _ => shown?_revise_of_ne hapart
  | overwrite dest values =>
    refine shown?_found fun q _ => ?_
    cases q.overwrite m.pools values with
    | error failure => rfl
    | ok result => exact shown?_put_of_ne hapart
  | keys k => exact shown?_found fun _ _ => rfl
  | encodeBatch keys b => exact shown?_encodeBatch
  | decodeBatch b from? first => exact shown?_decodeBatch hapart
  | _ => rfl

end PlainSession

end ParticleStore
