/-
ParticleStore.Proofs.Session.Freezing — what stays while a view is open.

While a view is open no step writes to its pool but through this very view, and no step
takes a slot of the pool. So the view goes on showing the values that it was opened on,
under whatever was written through it since (`View.after`), whoever releases the slot; the
other scalars of the pool stay as they are; and the table of the pool changes by releases
alone (`Pool.FrozenBut`).

One step keeps this (`frozen_perform`), by the calls that it makes if it has nothing to do
with views, and by looking at the three steps that have. A view may be written through
only while it is alone on its pool, and every step keeps it so (`viewing_perform`).
-/
import ParticleStore.Proofs.Plain.Views
import ParticleStore.Proofs.Session.Calls
import ParticleStore.Proofs.Session.Unviewed
import ParticleStore.Proofs.World.Freezing
import Mathlib.Data.List.Infix

namespace ParticleStore

open World StepM

variable {dim spacedim : Nat} {s : Session dim spacedim} {key dest i j : Nat} {v u : View}
  {step : Step dim spacedim}

namespace Pool

variable {p p' p'' q : Pool} {position : Nat} {old new : List Scalar}

/-- What stands where depends on the scalars and the stride alone. -/
theorem block_congr (hscalars : q.scalars = p.scalars) (hstride : q.stride = p.stride) :
    q.block position = p.block position := by
  rw [block, block, hscalars, hstride]

theorem scalars_withBlock_congr (hscalars : q.scalars = p.scalars) (hstride : q.stride = p.stride) :
    (q.withBlock position new).scalars = (p.withBlock position new).scalars := by
  simp only [withBlock, hscalars, hstride]

/-- The pool `p'` is `p`, but that slots were released, and that these values stand at the
position. -/
structure FrozenBut (p : Pool) (position : Nat) (values : List Scalar) (p' : Pool) : Prop where
  only : p.OnlyReleases p'
  scalars_eq : p'.scalars = (p.withBlock position values).scalars

namespace FrozenBut

theorem stride_eq (f : p.FrozenBut position old p') : p'.stride = p.stride := by
  rw [stride, f.only.config_eq, stride]

theorem of_same (only : p.OnlyReleases p') (hscalars : p'.scalars = p.scalars) :
    p.FrozenBut position (p.block position) p' :=
  ⟨only, by rw [withBlock_block, hscalars]⟩

/-- Counting views anew changes nothing. -/
theorem of_unviewed (hsame : p'.unviewed = p.unviewed) :
    p.FrozenBut position (p.block position) p' :=
  .of_same (.of_slots (congrArg Pool.id hsame :) (congrArg Pool.config hsame :)
    (congrArg Pool.slots hsame :)) (congrArg Pool.scalars hsame :)

theorem block_eq (f : p.FrozenBut position old p') (hi : p.Spans position)
    (hold : old.length = p.stride) : p'.block position = old := by
  rw [block_congr f.scalars_eq f.stride_eq, block_withBlock_self hi hold]

theorem trans (f : p.FrozenBut position old p') (f' : p'.FrozenBut position new p'')
    (hi : p.Spans position) (hold : old.length = p.stride) : p.FrozenBut position new p'' := by
  refine ⟨f.only.trans f'.only, ?_⟩
  rw [f'.scalars_eq, scalars_withBlock_congr f.scalars_eq f.stride_eq, withBlock_withBlock hi hold]

end FrozenBut

end Pool

namespace World

variable {w w' : World}

theorem seen_of_unviewed (hsame : w'.unviewed = w.unviewed) (ov : OpenView) :
    w'.seen ov = w.seen ov := by
  cases hp : w.pool? ov.1 with
  | none =>
    have hp' : w'.pool? ov.1 = none := by
      cases hp' : w'.pool? ov.1 with
      | none => rfl
      | some p' =>
        obtain ⟨p, hp'', -⟩ := pool?_of_unviewed hsame.symm hp'
        rw [hp] at hp''
        cases hp''
    rw [seen, seen, hp, hp']
  | some p =>
    obtain ⟨p', hp', hpool⟩ := pool?_of_unviewed hsame hp
    rw [seen_of_pool hp, seen_of_pool hp']
    exact Pool.block_congr (congrArg Pool.scalars hpool :) (congrArg Pool.stride hpool :)

end World

/-- What the view under a key shows after a step, if it showed `old` before and stays open: only what
is written through this very view makes a difference. -/
def View.after (v : View) (key : Nat) (old : List Scalar) : Step dim spacedim → List Scalar
  | .writeView k new => if k = key ∧ v.writable = true then overlay new old else old
  | _ => old

namespace View

theorem after_of_quiet (v : View) (key : Nat) (old : List Scalar) (hstep : step.isOnView = false) :
    v.after key old step = old := by
  cases step with
  | writeView => cases hstep
  | _ => rfl

/-- A read view shows what it showed. -/
theorem after_of_reader (key : Nat) (old : List Scalar) (hreader : v.writable = false) :
    v.after key old step = old := by
  cases step with
  | writeView k new => simp [after, hreader]
  | _ => rfl

theorem length_after (v : View) (key : Nat) (old : List Scalar) (step : Step dim spacedim) :
    (v.after key old step).length = old.length := by
  cases step with
  | writeView k new =>
    simp only [after]
    split
    · exact length_overlay new old
    · rfl
  | _ => rfl

theorem length_afterAll (v : View) (key : Nat) (old : List Scalar)
    (steps : List (Step dim spacedim)) :
    (steps.foldl (v.after key) old).length = old.length := by
  induction steps generalizing old with
  | nil => rfl
  | cons step rest ih => exact (ih _).trans (v.length_after key old step)

theorem afterAll_of_reader (key : Nat) (old : List Scalar) (steps : List (Step dim spacedim))
    (hreader : v.writable = false) : steps.foldl (v.after key) old = old := by
  induction steps with
  | nil => rfl
  | cons step rest ih => rwa [List.foldl_cons, after_of_reader key old hreader]

end View

namespace Session

/-- A view is kept under a key, and stays open while the steps are performed. -/
def StaysOpen (s : Session dim spacedim) (key : Nat) (ov : OpenView)
    (steps : List (Step dim spacedim)) : Prop :=
  ∀ now, now <+: steps → (s.run now).2.views.find? key = some ov

instance (s : Session dim spacedim) (key : Nat) (ov : OpenView)
    (steps : List (Step dim spacedim)) : Decidable (s.StaysOpen key ov steps) :=
  decidable_of_iff (∀ now ∈ steps.inits, (s.run now).2.views.find? key = some ov)
    (by simp only [List.mem_inits, StaysOpen])

theorem StaysOpen.start {ov : OpenView} {steps : List (Step dim spacedim)}
    (hopen : s.StaysOpen key ov steps) : s.views.find? key = some ov :=
  hopen [] List.nil_prefix

theorem StaysOpen.tail {ov : OpenView} {steps : List (Step dim spacedim)}
    (hopen : s.StaysOpen key ov (step :: steps)) : (s.perform step).2.StaysOpen key ov steps :=
  fun now hnow => hopen (step :: now) ((List.prefix_cons_inj step).mpr hnow)

section Views

variable (wf : s.world.WellFormed) (viewing : s.Viewing)

include viewing

/-- A view that is open is of a slot of a pool, which counts it. -/
theorem pool_of_view (hv : s.views.find? key = some (i, v)) :
    ∃ p, s.world.pool? i = some p ∧ v.position < p.totalSlots ∧ p.isViewed = true := by
  have hmem := Registry.mem_values_of_find? hv
  obtain ⟨p, hp, hlt⟩ := viewing.viewed.shown (i, v) hmem
  exact ⟨p, hp, hlt, viewing.viewed.isViewed hmem hp⟩

/-- A writable view is alone on its pool. -/
theorem key_eq_of_writable {key' : Nat} (hv : s.views.find? key = some (i, v))
    (hv' : s.views.find? key' = some (i, u)) (hwritable : v.writable = true) : key' = key := by
  by_contra hne
  have vw := viewing.viewed.perm (Registry.values_of_find? viewing.ascending hv)
  have hkept : (s.views.erase key).find? key' = some (i, u) := by
    rw [Registry.find?_erase_of_ne _ hne]
    exact hv'
  exact vw.alone hwritable (Registry.mem_values_of_find? hkept) rfl

include wf

/-- A view shows the scalars at its position. -/
theorem perform_readView (hv : s.views.find? key = some (i, v)) :
    s.perform (.readView key) = (.scalars (s.world.seen (i, v)), s) := by
  obtain ⟨p, hp, hlt, -⟩ := pool_of_view viewing hv
  have hslot := Pool.slotValues_eq ((wf.pool i p hp).spans hlt)
  have hseen : s.world.seen (i, v) = p.block v.position := seen_of_pool (v := (i, v)) hp
  rw [perform_eq]
  simp only [ofStep]
  rw [exec_bind]
  unfold viewed
  rw [exec_view_bind, hv]
  simp only
  rw [exec_pool_bind, hp]
  simp only [hslot, hseen]
  rfl

/-- Writing through a view changes the scalars at its position, if it is writable. -/
theorem perform_writeView {p : Pool} (new : List Scalar) (hv : s.views.find? key = some (i, v))
    (hp : s.world.pool? i = some p) :
    s.perform (.writeView key new) =
      if v.writable = true then
        (.scalars (overlay new (p.block v.position)),
          { s with world :=
              s.world.setPool i (p.withBlock v.position (overlay new (p.block v.position))) })
      else (.unknown "writable view", s) := by
  obtain ⟨q, hq, hlt, -⟩ := pool_of_view viewing hv
  rw [hp] at hq
  cases hq
  have hspans := (wf.pool i p hp).spans hlt
  rw [perform_eq]
  simp only [ofStep]
  unfold writeView
  rw [exec_view_bind, hv]
  simp only
  split
  · rw [exec_actOnPool_bind, exec_onPool, hp]
    simp only [Pool.overwriteAt_eq hspans]
    rfl
  · rfl

end Views

/-! ## The steps on views -/

theorem unviewed_shutView (s : Session dim spacedim) (key : Nat) :
    ((shutView key).exec s).2.world.unviewed = s.world.unviewed := by
  rw [exec_shutView]
  cases s.views.find? key with
  | none => rfl
  | some ov =>
    simp only
    cases hp : s.world.pool? ov.1 with
    | none => rfl
    | some p => exact unviewed_setPool_self hp (Pool.unviewed_closeView ov.2)

theorem perform_writeView_of_none (new : List Scalar) (hv : s.views.find? key = none) :
    s.perform (.writeView key new) = (.unknown "view", s) := by
  rw [perform_eq]
  simp only [ofStep]
  unfold writeView
  rw [exec_view_bind, hv]
  rfl

section Steps

variable (wf : s.world.WellFormed) (viewing : s.Viewing)

include viewing

theorem viewing_closeView : (s.perform (.closeView key)).2.Viewing := by
  obtain ⟨s', hexec, -, hviews, vw, -⟩ := plain_shut key [] viewing.ascending viewing.viewed
  rw [perform_snd]
  simp only [ofStep]
  rw [exec_bind, hexec]
  exact ⟨hviews ▸ Registry.ascending_erase viewing.ascending key, vw⟩

include wf

/-- Opening a view is refused and changes nothing, or it counts the views anew, changes nothing else
and keeps a view of the slot that the handle names. -/
theorem perform_openView (dest i : Nat) (name : HandleName) (writable : Bool) :
    (∃ answer, answer ≠ .done ∧ s.perform (.openView dest i name writable) = (answer, s)) ∨
    ∃ p h s', s.world.pool? i = some p ∧ s.named? name = some h ∧ p.flawed? h = none ∧
      s.perform (.openView dest i name writable) = (.done, s') ∧ s'.Viewing ∧
      s'.world.unviewed = s.world.unviewed ∧
      s'.views.find? dest = some (i, ⟨h.index.toNat, writable⟩) := by
  rw [perform_eq]
  simp only [ofStep]
  unfold openView
  rw [exec_poolPosition_bind]
  cases hp : s.world.pool? i with
  | none => exact .inl ⟨_, by simp, rfl⟩
  | some p =>
    simp only
    rw [exec_handle_bind]
    cases hname : s.named? name with
    | none => exact .inl ⟨_, by simp, rfl⟩
    | some h =>
      have wfp := wf.pool i p hp
      simp only
      rw [exec_actOnPool_bind, exec_onPool_decided hp (Pool.openView_eq wfp writable)]
      cases hrefused : (p.flawed? h).or (if writable then p.viewed? else p.written?) with
      | some cause => exact .inl ⟨_, by simp, rfl⟩
      | none =>
        obtain ⟨hgood, hfree⟩ := Option.or_eq_none_iff.mp hrefused
        -- the view is counted, the one under its key is closed, and then it is kept
        have hopened := viewing.viewed.opened hp (Pool.liveAt_of_flawed? wfp hgood).lt hfree
        obtain ⟨s', hexec, -, hviews, vw, -⟩ := plain_shut dest
          (s := { s with world := s.world.setPool i (p.viewOpened writable) })
          [(i, ⟨h.index.toNat, writable⟩)] viewing.ascending hopened
        have hasc : s'.views.Ascending := hviews ▸ Registry.ascending_erase viewing.ascending dest
        have hgone : s'.views.find? dest = none := by
          rw [hviews]
          exact Registry.find?_erase_self _ _
        have hunviewed := unviewed_shutView
          ({ s with world := s.world.setPool i (p.viewOpened writable) } : Session dim spacedim) dest
        rw [hexec] at hunviewed
        simp only [Action.decided_none]
        rw [exec_bind, hexec]
        exact .inr ⟨p, h, _, rfl, rfl, hgood, rfl, (plain_kept hasc hgone vw).2,
          hunviewed.trans (unviewed_setPool_self hp (Pool.unviewed_viewOpened writable)),
          Registry.find?_insert_self _ _ _⟩

/-- **Every step keeps count of the views**, and a write view alone on its pool. -/
theorem viewing_perform (step : Step dim spacedim) : (s.perform step).2.Viewing := by
  cases hstep : step.isOnView with
  | false =>
    have follows := follows_perform (s := s) hstep
    obtain ⟨events, leads⟩ := follows.leads
    have hviews := follows.views_eq fun _ _ => rfl
    exact ⟨hviews ▸ viewing.ascending, hviews ▸ (leads.viewed wf viewing.viewed).2⟩
  | true =>
    cases step with
    | openView dest i name writable =>
      rcases perform_openView wf viewing dest i name writable with
        ⟨answer, -, heq⟩ | ⟨p, h, s', -, -, -, heq, hviewing, -⟩
      · rw [heq]
        exact viewing
      · rw [heq]
        exact hviewing
    | closeView key => exact viewing_closeView viewing
    | writeView key new =>
      cases hv : s.views.find? key with
      | none =>
        rw [perform_writeView_of_none new hv]
        exact viewing
      | some ov =>
        obtain ⟨p, hp, -⟩ := pool_of_view viewing hv
        rw [perform_writeView wf viewing new hv hp]
        split
        · exact ⟨viewing.ascending, viewing.viewed.setPool hp rfl rfl (Nat.le_refl _)⟩
        · exact viewing
    | _ => cases hstep

/-- **A step on a frozen pool** releases slots and writes through the view, and does no more. -/
theorem frozen_perform {p : Pool} (hv : s.views.find? key = some (i, v))
    (hp : s.world.pool? i = some p) (step : Step dim spacedim) :
    ∃ p', (s.perform step).2.world.pool? i = some p' ∧
      p.FrozenBut v.position (v.after key (p.block v.position) step) p' := by
  obtain ⟨q, hq, hlt, hview⟩ := pool_of_view viewing hv
  rw [hp] at hq
  cases hq
  -- a step that only counts views anew
  have counted {s' : Session dim spacedim} (hsame : s'.world.unviewed = s.world.unviewed) :
      ∃ p', s'.world.pool? i = some p' ∧ p.FrozenBut v.position (p.block v.position) p' := by
    obtain ⟨p', hp', hpool⟩ := pool?_of_unviewed hsame hp
    exact ⟨p', hp', .of_unviewed hpool⟩
  cases hstep : step.isOnView with
  | false =>
    obtain ⟨events, leads⟩ := (follows_perform (s := s) hstep).leads
    obtain ⟨p', hp', only, same⟩ := leads.frozen wf hp hview
    rw [View.after_of_quiet v key _ hstep]
    exact ⟨p', hp', .of_same only (same.scalars_eq hview)⟩
  | true =>
    cases step with
    | openView dest j name writable =>
      rcases perform_openView wf viewing dest j name writable with
        ⟨answer, -, heq⟩ | ⟨-, -, s', -, -, -, heq, -, hsame, -⟩
      · rw [heq]
        exact counted rfl
      · rw [heq]
        exact counted hsame
    | closeView k =>
      refine counted ?_
      rw [perform_snd]
      simp only [ofStep]
      rw [exec_bind]
      have hsame := unviewed_shutView s k
      cases hexec : (shutView k).exec s with
      | mk result s' =>
        rw [hexec] at hsame
        cases result <;> exact hsame
    | writeView k new =>
      cases hk : s.views.find? k with
      | none =>
        rw [perform_writeView_of_none new hk]
        have hne : k ≠ key := by
          rintro rfl
          rw [hv] at hk
          cases hk
        simp only [View.after, hne, false_and, if_false]
        exact counted rfl
      | some ov =>
        obtain ⟨j, u⟩ := ov
        obtain ⟨q, hq, hltq, -⟩ := pool_of_view viewing hk
        rw [perform_writeView wf viewing new hk hq]
        by_cases hwritable : u.writable = true
        · rw [if_pos hwritable]
          by_cases hj : j = i
          · -- the only view that writes to the pool is the one that is open
            subst hj
            obtain rfl := key_eq_of_writable viewing hk hv hwritable
            rw [hv] at hk
            cases hk
            rw [hp] at hq
            cases hq
            refine ⟨_, pool?_setPool_self (by simp [hp]), .of_slots rfl rfl rfl, ?_⟩
            simp [View.after, hwritable]
          · have hne : ¬ (k = key ∧ v.writable = true) := by
              rintro ⟨rfl, -⟩
              rw [hv] at hk
              cases hk
              exact hj rfl
            simp only [View.after, if_neg hne]
            exact ⟨p, (pool?_setPool_of_ne (Ne.symm hj)).trans hp, .of_same (.refl p) rfl⟩
        · rw [if_neg hwritable]
          have hne : ¬ (k = key ∧ v.writable = true) := by
            rintro ⟨rfl, hw⟩
            rw [hv] at hk
            cases hk
            exact hwritable hw
          simp only [View.after, if_neg hne]
          exact counted rfl
    | _ => cases hstep

end Steps

/-! ## Runs -/

theorem viewing_run (steps : List (Step dim spacedim)) (sound : s.Sound False)
    (viewing : s.Viewing) : (s.run steps).2.Viewing := by
  induction steps generalizing s with
  | nil => exact viewing
  | cons step rest ih =>
    exact ih (sound.perform step)
      (viewing_perform sound.wellFormed viewing step)

/-- **A pool stays frozen for as long as a view is open on it.** -/
theorem frozen_run {p : Pool} {steps : List (Step dim spacedim)} (sound : s.Sound False)
    (viewing : s.Viewing) (hopen : s.StaysOpen key (i, v) steps) (hp : s.world.pool? i = some p) :
    ∃ p', (s.run steps).2.world.pool? i = some p' ∧
      p.FrozenBut v.position (steps.foldl (v.after key) (p.block v.position)) p' := by
  induction steps generalizing s p with
  | nil => exact ⟨p, hp, .of_same (.refl p) rfl⟩
  | cons step rest ih =>
    obtain ⟨q, hq, hlt, -⟩ := pool_of_view viewing hopen.start
    rw [hp] at hq
    cases hq
    have wf := sound.wellFormed
    have hspans := (wf.pool i p hp).spans hlt
    obtain ⟨p₁, hp₁, frozen⟩ := frozen_perform wf viewing hopen.start hp step
    obtain ⟨p', hp', frozen'⟩ := ih (sound.perform step)
      (viewing_perform wf viewing step) hopen.tail hp₁
    have hlen : (v.after key (p.block v.position) step).length = p.stride := by
      rw [View.length_after, Pool.length_block hspans]
    rw [frozen.block_eq hspans hlen] at frozen'
    exact ⟨p', hp', frozen.trans frozen' hspans hlen⟩

/-- What a view holds fast while it stays open over some steps, if it shows `old` before them. -/
structure Frozen (s : Session dim spacedim) (key i : Nat) (v : View)
    (steps : List (Step dim spacedim)) (old : List Scalar) : Prop where
  /-- The view shows what it showed, under what was written through it since. -/
  shown : ((s.run steps).2.perform (.readView key)).1 = .scalars (steps.foldl (v.after key) old)
  /-- Nothing is written through a read view. -/
  reader : v.writable = false → steps.foldl (v.after key) old = old
  /-- The pool keeps all other scalars, and its table changes by releases alone. -/
  pool : ∃ p p', s.world.pool? i = some p ∧ (s.run steps).2.world.pool? i = some p' ∧
    p.FrozenBut v.position (steps.foldl (v.after key) old) p'
  /-- No slot of the pool has a new owner. -/
  unissued : ∀ h, ((s.run steps).2.world.contents i h).isSome → (s.world.contents i h).isSome

/-- What views are worth, in one session and in all that come of it. -/
structure ViewsHold (s : Session dim spacedim) : Prop where
  /-- Beside a write view no other one is open on its pool, and the pool counts no other. -/
  alone : ∀ key key' i v u, s.views.find? key = some (i, v) → s.views.find? key' = some (i, u) →
    v.writable = true → key' = key
  counted : ∀ i p, s.world.pool? i = some p → p.writers = 0 ∨ p.writers = 1 ∧ p.readers = 0
  /-- A view shows the values of the slot that it is opened on. -/
  opened : ∀ dest i name writable, (s.perform (.openView dest i name writable)).1 = .done →
    ∃ h values, s.named? name = some h ∧ s.world.contents i h = some values ∧
      ((s.perform (.openView dest i name writable)).2.perform (.readView dest)).1 = .scalars values
  /-- It goes on to show them, and the pool is frozen, for as long as it stays open. -/
  frozen : ∀ key i v steps, s.StaysOpen key (i, v) steps →
    ∃ old, (s.perform (.readView key)).1 = .scalars old ∧ s.Frozen key i v steps old
  /-- Releases succeed as if no view were open. -/
  released : ∀ step, step.isReleasing = true →
    s.unviewed.perform step = ((s.perform step).1, (s.perform step).2.unviewed)

/-- A view that stays open holds its pool fast. -/
theorem frozen_of_staysOpen {steps : List (Step dim spacedim)} (sound : s.Sound False)
    (viewing : s.Viewing) (hopen : s.StaysOpen key (i, v) steps) :
    s.Frozen key i v steps (s.world.seen (i, v)) := by
  have wf := sound.wellFormed
  obtain ⟨p, hp, hlt, -⟩ := pool_of_view viewing hopen.start
  have hspans := (wf.pool i p hp).spans hlt
  have hseen : s.world.seen (i, v) = p.block v.position := seen_of_pool (v := (i, v)) hp
  obtain ⟨p', hp', frozen⟩ := frozen_run sound viewing hopen hp
  have sound' := sound.run steps
  have viewing' := viewing_run steps sound viewing
  have hlast : (s.run steps).2.views.find? key = some (i, v) := hopen steps (List.prefix_refl _)
  rw [hseen]
  refine ⟨?_, fun hreader => ?_, ⟨p, p', hp, hp', frozen⟩, fun h hsome => ?_⟩
  · have hlen : (steps.foldl (v.after key) (p.block v.position)).length = p.stride := by
      rw [View.length_afterAll, Pool.length_block hspans]
    have hseen' : (s.run steps).2.world.seen (i, v) = p'.block v.position :=
      seen_of_pool (v := (i, v)) hp'
    rw [perform_readView sound'.wellFormed viewing' hlast, hseen', frozen.block_eq hspans hlen]
  · exact View.afterAll_of_reader key _ steps hreader
  · rw [contents_of_pool hp'] at hsome
    rw [contents_of_pool hp]
    exact frozen.only.isSome_contents (wf.pool i p hp) (sound'.wellFormed.pool i p' hp') hsome

/-- **A view freezes the storage**, after every run of steps. -/
theorem viewsHold_run (steps : List (Step dim spacedim)) :
    (run ({} : Session dim spacedim) steps).2.ViewsHold := by
  have sound := sound_reached steps
  have viewing := viewing_run steps sound_empty viewing_empty
  have wf := sound.wellFormed
  refine ⟨?_, viewing.viewed.exclusive, ?_, ?_, fun step => perform_unviewed⟩
  · intro key key' i v u hv hv' hwritable
    exact key_eq_of_writable viewing hv hv' hwritable
  · intro dest i name writable hdone
    rcases perform_openView wf viewing dest i name writable with
      ⟨answer, hne, heq⟩ | ⟨p, h, s', hp, hname, hgood, heq, viewing', hsame, hv⟩
    · rw [heq] at hdone
      exact absurd hdone hne
    · have wf' : s'.world.WellFormed := by
        have sound' := sound.perform (.openView dest i name writable)
        rw [heq] at sound'
        exact sound'.wellFormed
      refine ⟨h, p.block h.index.toNat, hname, ?_, ?_⟩
      · rw [contents_of_pool hp, Pool.contents_eq_block (wf.pool i p hp) hgood]
      · rw [heq, perform_readView wf' viewing' hv, seen_of_unviewed hsame]
        exact congrArg Answer.scalars (seen_of_pool (v := (i, ⟨h.index.toNat, writable⟩)) hp)
  · intro key i v steps' hopen
    refine ⟨_, ?_, frozen_of_staysOpen sound viewing hopen⟩
    rw [perform_readView wf viewing hopen.start]

/-- A slot is released under a read view, and the pool refuses to take it again. -/
theorem viewsHold_run_of_released :
    let s := (run ({} : Session 1 1)
      [.makePool { stride := 1 }, .allocate 0 0, .writeSlot 0 (.kept 0) [⟨5⟩],
        .openView 0 0 (.kept 0) false]).2
    let steps : List (Step 1 1) := [.release 0 0, .allocate 0 0, .reserve 0 4]
    s.StaysOpen 0 (0, ⟨0, false⟩) steps ∧ s.Frozen 0 0 ⟨0, false⟩ steps [⟨5⟩] := by
  intro s steps
  have hopen : s.StaysOpen 0 (0, ⟨0, false⟩) steps := by decide +kernel
  obtain ⟨old, hold, frozen⟩ := (viewsHold_run _).frozen 0 0 ⟨0, false⟩ steps hopen
  have hshown : (s.perform (.readView 0)).1 = .scalars [⟨5⟩] := rfl
  rw [hshown] at hold
  cases hold
  exact ⟨hopen, frozen⟩

end Session

end ParticleStore
