/-
ParticleStore.Proofs.World.Authenticity — which handles the pools take for good.

A pool knows nothing of a handle but the three numbers in it, and anybody can write down
three numbers. `verdict` says from the history alone what is wrong with a handle: nothing
if it is the owner's, and otherwise the first of the four flaws that it has. `Judges` says
that everything a pool does with a handle goes by such a verdict. After every run of calls
the pools judge handles by the run's own history (`Authentic`), whoever wrote the handles.

Two allocations can return one and the same handle, but no sooner than the slot's
generation has come round, `UInt32.size` = 2^32 releases apart (`issued_eq_iff`).
-/
import ParticleStore.Proofs.Session.Calls
import ParticleStore.Proofs.World.History

namespace ParticleStore

variable {history pre mid post : List SlotEvent} {i i' : Nat} {p : Pool} {h h' : Handle}

namespace Pool

/-- The first flaw of a handle that names no live slot. -/
def flawOf (p : Pool) (h : Handle) : HandleFlaw :=
  if h = .invalid then .sentinel
  else if h.pool ≠ p.id then .foreignPool
  else if p.totalSlots ≤ h.index.toNat then .outOfRange
  else .stale

theorem locate_of_not_liveAt
    (hdead : ¬ (h.pool = p.id ∧ p.LiveAt h.index.toNat h.generation)) :
    p.locate h = .error (p.flawOf h) := by
  unfold locate flawOf
  by_cases hinvalid : h = .invalid
  · simp [Handle.isValid, hinvalid]
  have hvalid : h.isValid = true := by simpa [Handle.isValid] using hinvalid
  by_cases hpool : h.pool = p.id
  · simp only [hvalid, hinvalid, hpool, Bool.not_true, Bool.false_eq_true, ne_eq, not_true_eq_false,
      if_false]
    by_cases hout : p.totalSlots ≤ h.index.toNat
    · rw [if_pos hout, List.getElem?_eq_none hout]
    · rw [if_neg hout]
      obtain ⟨s, hslot⟩ : ∃ s, p.slots[h.index.toNat]? = some s :=
        ⟨_, List.getElem?_eq_getElem (Nat.not_le.mp hout)⟩
      have hother : ¬ (s.live && s.generation == h.generation) = true := by
        intro hsame
        obtain ⟨hlive, hgeneration⟩ : s.live = true ∧ s.generation = h.generation := by
          simpa using hsame
        exact hdead ⟨hpool, by rw [LiveAt, hslot, ← hlive, ← hgeneration]⟩
      simp only [hslot, if_neg hother]
  · simp [hvalid, hinvalid, hpool]

/-- Every test that the pool makes of a handle goes by the verdict: the look-up, the query, reading
and writing, views of both kinds, copying and releasing. Each refuses a handle with a flaw for this
flaw, and one without for other reasons only. -/
structure Judges (p : Pool) (h : Handle) (verdict : Option HandleFlaw) : Prop where
  locate_eq : p.locate h = verdict.elim (.ok h.index.toNat) .error
  isLive_eq : p.isLive h = verdict.isNone
  values_eq : p.values h =
    .decided ((verdict.map .invalidHandle).or p.written?) (p.block h.index.toNat)
  setValues_eq : ∀ values, values.length = p.stride → p.setValues h values =
    .decided ((verdict.map .invalidHandle).or p.viewed?) (p.withBlock h.index.toNat values)
  openView_eq : ∀ writable, p.openView h writable =
    .decided ((verdict.map .invalidHandle).or (if writable then p.viewed? else p.written?))
      (⟨h.index.toNat, writable⟩, p.viewOpened writable)
  duplicate_eq : p.duplicate h =
    .decided (p.viewed?.or ((verdict.map .invalidHandle).or p.full?))
      (p.nextHandle, p.filled (p.block h.index.toNat))
  release_eq : p.release h = .decided (verdict.map .invalidHandle) (.invalid, p.released h)

theorem judges_of_locate {flaw? : Option HandleFlaw} (wf : p.WellFormed)
    (hlocate : p.locate h = flaw?.elim (.ok h.index.toNat) .error) : p.Judges h flaw? := by
  have hflawed : p.flawed? h = flaw?.map .invalidHandle := by
    rw [flawed?, hlocate]
    cases flaw? <;> rfl
  refine ⟨hlocate, ?_, ?_, fun values hv => ?_, fun writable => ?_, ?_, ?_⟩
  · rw [isLive, hlocate]
    cases flaw? <;> rfl
  · rw [Pool.values_eq wf, hflawed]
  · rw [Pool.setValues_eq wf hv, hflawed]
  · rw [Pool.openView_eq wf, hflawed]
  · rw [Pool.duplicate_eq wf, hflawed]
  · rw [Pool.release_eq wf, hflawed]

end Pool

/-- What is wrong with a handle that comes to the pool `p` at position `i`, if anything is. -/
def verdict (history : List SlotEvent) (i : Nat) (p : Pool) (h : Handle) : Option HandleFlaw :=
  if owner history i h.index.toNat = some h then none else some (p.flawOf h)

namespace World

variable {w : World}

namespace Recorded

/-- A handle's slot is live in its generation just while the handle owns it. -/
theorem liveAt_iff (rec : Recorded history w) (hp : w.pool? i = some p) (hpool : h.pool = p.id) :
    p.LiveAt h.index.toNat h.generation ↔ owner history i h.index.toNat = some h := by
  constructor
  · intro hlive
    have hslot := rec.slot i h.index.toNat _ ((slot?_of_pool hp).trans hlive)
    obtain ⟨hgeneration, howned⟩ := Slot.mk.inj hslot
    obtain ⟨k, hk⟩ := Option.isSome_iff_exists.mp howned.symm
    obtain ⟨hindex, ⟨q, hq, hqid, -⟩, hkgeneration⟩ := rec.owned hk
    rw [hp] at hq
    cases hq
    -- the owner has the pool, the index and the generation of the handle
    rw [hk, Option.some.injEq]
    cases h
    cases k
    simp only [Handle.mk.injEq]
    exact ⟨hqid.trans hpool.symm, UInt32.toNat_inj.mp hindex, hkgeneration.trans hgeneration.symm⟩
  · intro howner
    obtain ⟨-, has, hgeneration⟩ := rec.owned howner
    obtain ⟨q, hq, -, hlt⟩ := has
    rw [hp] at hq
    cases hq
    have hslot := List.getElem?_eq_getElem hlt
    rw [Pool.LiveAt, hslot, rec.slot i h.index.toNat _ ((slot?_of_pool hp).trans hslot), howner,
      hgeneration]
    rfl

/-- **The pools judge every handle by the history.** -/
theorem judges (rec : Recorded history w) (hp : w.pool? i = some p) (h : Handle) :
    p.Judges h (verdict history i p h) := by
  have wf := rec.wellFormed.pool i p hp
  refine Pool.judges_of_locate wf ?_
  unfold verdict
  by_cases howner : owner history i h.index.toNat = some h
  · rw [if_pos howner]
    obtain ⟨-, ⟨q, hq, hpool, -⟩, -⟩ := rec.owned howner
    rw [hp] at hq
    cases hq
    exact (Pool.locate_eq_ok_iff wf).mpr ⟨hpool, rfl, (rec.liveAt_iff hp hpool).mpr howner⟩
  rw [if_neg howner]
  exact Pool.locate_of_not_liveAt fun hlive => howner ((rec.liveAt_iff hp hlive.1).mp hlive.2)

/-- A handle that a pool has issued is never out of range or foreign to it. -/
theorem verdict_of_issued (rec : Recorded (pre ++ .issued i h :: post) w)
    (hp : w.pool? i = some p) :
    verdict (pre ++ .issued i h :: post) i p h = none ∨
      verdict (pre ++ .issued i h :: post) i p h = some .stale := by
  obtain ⟨⟨q, hq, hpool, hlt⟩, -⟩ := rec.issued pre i h post rfl
  rw [hp] at hq
  cases hq
  have hvalid : h ≠ .invalid := by
    simpa [Handle.isValid] using (rec.wellFormed.pool i p hp).isValid_of_pool hpool
  unfold verdict
  by_cases howner : owner (pre ++ .issued i h :: post) i h.index.toNat = some h
  · exact .inl (if_pos howner)
  · rw [if_neg howner, Pool.flawOf, if_neg hvalid, if_neg (not_not_intro hpool),
      if_neg (Nat.not_le.mpr hlt)]
    exact .inr rfl

/-- Releases between two allocations, as the generations of their handles count them. -/
theorem ofNat_eq_ofNat_add_iff (n m : Nat) :
    UInt32.ofNat n = UInt32.ofNat (n + m) ↔ UInt32.size ∣ m := by
  rw [← UInt32.toNat_inj, UInt32.toNat_ofNat', UInt32.toNat_ofNat', UInt32.size]
  omega

/-- **Two allocations return the same handle just if the generations have come round.** -/
theorem issued_eq_iff
    (rec : Recorded (pre ++ .issued i h :: (mid ++ .issued i' h' :: post)) w) :
    h = h' ↔ i = i' ∧ h.index = h'.index ∧ UInt32.size ∣ releases mid i h.index.toNat := by
  obtain ⟨⟨p, hp, hpool, -⟩, hgeneration⟩ := rec.issued pre i h _ rfl
  obtain ⟨⟨p', hp', hpool', -⟩, hgeneration'⟩ :=
    rec.issued (pre ++ .issued i h :: mid) i' h' post (by simp)
  have hbetween : releases (pre ++ .issued i h :: mid) i' h'.index.toNat =
      releases pre i' h'.index.toNat + releases mid i' h'.index.toNat := by
    rw [releases_append, releases_cons, SlotEvent.releasesAt, Nat.zero_add]
  rw [hbetween] at hgeneration'
  constructor
  · rintro rfl
    obtain rfl := rec.wellFormed.id_inj i i' p p' hp hp' (hpool.symm.trans hpool')
    exact ⟨rfl, rfl, (ofNat_eq_ofNat_add_iff _ _).mp (hgeneration.symm.trans hgeneration')⟩
  · rintro ⟨rfl, hindex, hround⟩
    rw [hp] at hp'
    cases hp'
    rw [← hindex, ← (ofNat_eq_ofNat_add_iff _ _).mpr hround, ← hgeneration] at hgeneration'
    cases h
    cases h'
    simp only [Handle.mk.injEq]
    exact ⟨hpool.trans hpool'.symm, hindex, hgeneration'.symm⟩

/-- **A handle whose slot was released is refused** until the generations have come round. -/
theorem verdict_of_released (rec : Recorded (pre ++ .issued i h :: post) w)
    (hp : w.pool? i = some p) (hpos : 0 < releases post i h.index.toNat)
    (hlt : releases post i h.index.toNat < UInt32.size) :
    verdict (pre ++ .issued i h :: post) i p h = some .stale := by
  refine (rec.verdict_of_issued hp).resolve_left fun hgood => ?_
  have howner : owner (pre ++ .issued i h :: post) i h.index.toNat = some h := by
    by_contra hother
    unfold verdict at hgood
    rw [if_neg hother] at hgood
    cases hgood
  obtain ⟨-, -, hnow⟩ := rec.owned howner
  obtain ⟨-, hthen⟩ := rec.issued pre i h post rfl
  rw [releases_append, releases_cons, SlotEvent.releasesAt, Nat.zero_add, hthen,
    ofNat_eq_ofNat_add_iff] at hnow
  exact absurd (Nat.le_of_dvd hpos hnow) (by omega)

end Recorded

/-- The pools take for good just the handles of the slots' owners, as the history has them. -/
structure Authentic (history : List SlotEvent) (w : World) : Prop where
  /-- Each operation that is given a handle goes by the same verdict. -/
  judged : ∀ i p, w.pool? i = some p → ∀ h, p.Judges h (verdict history i p h)
  /-- A handle that the pool has issued is good or stale to it. -/
  issued : ∀ pre i h post, history = pre ++ .issued i h :: post →
    ∃ p, w.pool? i = some p ∧
      (verdict history i p h = none ∨ verdict history i p h = some .stale)
  /-- Of two allocations, the later one returns the handle of the earlier one just if both took
  one slot, and it was released a multiple of 2^32 times in between. -/
  issued_eq_iff : ∀ pre i h mid i' h' post,
    history = pre ++ .issued i h :: (mid ++ .issued i' h' :: post) →
      (h = h' ↔ i = i' ∧ h.index = h'.index ∧ UInt32.size ∣ releases mid i h.index.toNat)
  /-- Copies of a handle are refused once its slot is released, until it has been 2^32 times. -/
  refused : ∀ pre i h post p, history = pre ++ .issued i h :: post → w.pool? i = some p →
    0 < releases post i h.index.toNat → releases post i h.index.toNat < UInt32.size →
      verdict history i p h = some .stale

theorem Recorded.authentic (rec : Recorded history w) : Authentic history w where
  judged i p hp h := rec.judges hp h
  issued pre i h post heq := by
    subst heq
    obtain ⟨⟨p, hp, -⟩, -⟩ := rec.issued pre i h post rfl
    exact ⟨p, hp, rec.verdict_of_issued hp⟩
  issued_eq_iff pre i h mid i' h' post heq := by
    subst heq
    exact rec.issued_eq_iff
  refused pre i h post p heq hp hpos hlt := by
    subst heq
    exact rec.verdict_of_released hp hpos hlt

/-- **No handle but the owner's passes**, after every run of calls on any number of pools, with any
handles, and after every run of a session, whose steps are such calls. -/
theorem authentic_run (dim spacedim : Nat) :
    (∀ calls : List PoolCall,
      Authentic (({} : World).callAll calls).1 (({} : World).callAll calls).2) ∧
    ∀ steps : List (Step dim spacedim), ∃ history,
      ({} : World).Leads PoolCall.isAny history (Session.run {} steps).2.world ∧
        Authentic history (Session.run {} steps).2.world := by
  constructor
  · intro calls
    exact (recorded_of_leads ⟨calls, fun c _ => (rfl : PoolCall.isAny c = true), rfl⟩).authentic
  · intro steps
    obtain ⟨history, leads⟩ := Session.leads_reached steps
    exact ⟨history, leads, (recorded_of_leads leads).authentic⟩

end World

end ParticleStore
