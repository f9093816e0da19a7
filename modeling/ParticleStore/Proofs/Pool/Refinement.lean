/-
ParticleStore.Proofs.Pool.Refinement — a pool refines a store.

A pool is used through a sequence of requests with handles of any origin. Together
with the views opened on it, it stands for a store: `Represents` says that every
handle shows what its entry holds, and that the pool's counts count entries and
views. `perform_answers` is the step: whatever is asked, the pool's reply is one
that the store allows, and the pool afterwards stands for the store afterwards.

A view is a window on a slot and knows nothing of handles. What ties it to an entry
is that no slot is taken while a view is open, so the only live handle that its
slot can have is the one that the view was opened through (`Represents.only`).
-/
import ParticleStore.Proofs.Pool.Contents
import ParticleStore.Proofs.Pool.Store
import ParticleStore.World

namespace ParticleStore

/-- A pool with the views open on it, each with the handle it was opened through. -/
structure PoolSession where
  pool : Pool
  views : List (Handle × View) := []

namespace PoolSession

/-! ## Requests to a pool -/

/-- The pool as it is made: without slots, and with its initial reservation. -/
def start (id : PoolId) (config : PoolConfig) : PoolSession :=
  { pool := (Pool.empty id config).reserve config.initialReservation }

/-- The reply of an operation on the pool, and the pool afterwards. -/
def reply {α : Type} (u : PoolSession) (result : Attempt PoolError (α × Pool))
    (answer : α → PoolReply) : PoolReply × PoolSession :=
  match result with
  | .ok (a, p) => (answer a, { u with pool := p })
  | .error failure => (.ofFailure failure, u)

/-- What the slot at a position shows. -/
def look (u : PoolSession) (position : Nat) : PoolReply :=
  match u.pool.slotValues position with
  | .ok values => .shown values
  | .error failure => .ofFailure failure

/-- The reply to a request, and the pool and its views afterwards. -/
def perform (u : PoolSession) : PoolRequest → PoolReply × PoolSession
  | .reserve n => (.done, { u with pool := u.pool.reserve n })
  | .allocate => u.reply u.pool.allocate .issued
  | .duplicate h => u.reply (u.pool.duplicate h) .issued
  | .release h => u.reply (u.pool.release h) .released
  | .openView h writable =>
    match u.pool.openView h writable with
    | .ok (v, p) => (u.look v.position, { pool := p, views := u.views ++ [(h, v)] })
    | .error failure => (.ofFailure failure, u)
  | .readView place =>
    match u.views[place]? with
    | none => (.noView, u)
    | some (_, v) => (u.look v.position, u)
  | .writeView place values =>
    match u.views[place]? with
    | none => (.noView, u)
    | some (_, v) =>
      if v.writable then u.reply (u.pool.overwriteAt v.position values) .shown else (.noView, u)
  | .closeView place =>
    match u.views[place]? with
    | none => (.noView, u)
    | some (_, v) => (.done, { pool := u.pool.closeView v, views := u.views.eraseIdx place })

/-- The requests with their replies, and the pool and its views in the end. -/
def run (u : PoolSession) : List PoolRequest → List (PoolRequest × PoolReply) × PoolSession
  | [] => ([], u)
  | request :: rest =>
    let (reply, u) := u.perform request
    let (replies, u) := u.run rest
    ((request, reply) :: replies, u)

/-! ## The store that a pool stands for -/

variable {u : PoolSession} {stride limit : Nat} {σ : Store stride} {p' : Pool} {h : Handle}
  {values : Block stride}

/-- The pool `u` stands for the store `σ` with at most `limit` entries. -/
structure Represents (limit : Nat) (u : PoolSession) (σ : Store stride) : Prop where
  wellFormed : u.pool.WellFormed
  stride_eq : u.pool.stride = stride
  limit_eq : u.pool.config.slotLimit = limit
  shown : ∀ k, u.pool.contents k = (σ.entries.lookup k).map List.Vector.toList
  size_eq : σ.size = u.pool.live
  views_eq : σ.views = u.views.map fun v => (v.1, v.2.writable)
  position_eq : ∀ v ∈ u.views, v.2.position = v.1.index.toNat
  position_lt : ∀ v ∈ u.views, v.2.position < u.pool.totalSlots
  /-- The slot of a view is live for no other handle than the view's. -/
  only : ∀ v ∈ u.views, ∀ k, (u.pool.contents k).isSome → k.index = v.1.index → k = v.1
  readers_eq : u.pool.readers = u.views.countP fun v => !v.2.writable
  writers_eq : u.pool.writers = u.views.countP fun v => v.2.writable

/-- A new pool stands for the empty store. -/
theorem represents_start (id : PoolId) (config : PoolConfig) (hid : id ≠ .none) :
    Represents config.slotLimit (start id config) ({} : Store config.stride) := by
  have wf := Pool.wellFormed_empty config hid
  have hreserved := Pool.wellFormed_reserve wf config.initialReservation
  obtain ⟨reserved, heq⟩ := (Pool.empty id config).reserve_eq config.initialReservation
  have hempty : ∀ k, (Pool.empty id config).contents k = none := fun k => by
    rw [← Option.not_isSome_iff_eq_none, Pool.isSome_contents wf]
    rintro ⟨-, hlive⟩
    exact Nat.not_lt_zero _ hlive.lt
  unfold start
  rw [heq] at hreserved ⊢
  exact ⟨hreserved, rfl, rfl, fun k => hempty k, rfl, rfl, by simp, by simp, by simp,
    rfl, rfl⟩

namespace Represents

variable (r : Represents limit u σ)

include r

theorem isSome_contents_iff : (u.pool.contents h).isSome ↔ h ∈ σ.entries := by
  rw [r.shown, Option.isSome_map, Finmap.lookup_isSome]

theorem flawed?_of_lookup (hh : σ.entries.lookup h = some values) : u.pool.flawed? h = none := by
  rw [Pool.flawed?_eq_none_iff_contents, r.shown, hh]
  rfl

theorem block_of_lookup (hh : σ.entries.lookup h = some values) :
    u.pool.block h.index.toNat = values.toList := by
  have hshown := r.shown h
  rw [Pool.contents_eq_block r.wellFormed (r.flawed?_of_lookup hh), hh] at hshown
  exact Option.some_inj.mp hshown

/-- A handle without an entry is refused for one of its flaws. -/
theorem flawed?_of_none (hh : σ.entries.lookup h = none) :
    ∃ flaw, u.pool.flawed? h = some (.invalidHandle flaw) := by
  have hflawed : u.pool.flawed? h ≠ none := by
    rw [Ne, Pool.flawed?_eq_none_iff_contents, r.shown, hh]
    simp
  unfold Pool.flawed? at hflawed ⊢
  cases hloc : u.pool.locate h with
  | ok i => simp [hloc] at hflawed
  | error flaw => exact ⟨flaw, rfl⟩

theorem size_le : σ.size ≤ limit := by
  rw [r.size_eq, ← r.limit_eq]
  exact r.wellFormed.live_le_slotLimit

theorem full?_eq :
    u.pool.full? = if σ.size = limit then some (.outOfResources (σ.size + 1) limit) else none := by
  have hle := r.size_le
  unfold Pool.full?
  rw [r.limit_eq, ← r.size_eq]
  by_cases hfull : σ.size = limit
  · rw [if_pos hfull, if_pos (by omega)]
  · rw [if_neg hfull, if_neg (by omega)]

/-- The pool's counts of views tell whether one is open. -/
theorem isViewed_eq : u.pool.isViewed = true ↔ σ.views ≠ [] := by
  have htotal : u.pool.readers + u.pool.writers = u.views.length := by
    rw [r.readers_eq, r.writers_eq, Nat.add_comm,
      List.length_eq_countP_add_countP (fun v => v.2.writable)]
    simp
  rw [Pool.isViewed, htotal, r.views_eq]
  simp [List.length_pos_iff]

theorem viewed?_eq : u.pool.viewed? = if σ.views ≠ [] then some .storageBorrowed else none := by
  unfold Pool.viewed?
  simp only [r.isViewed_eq]

/-- The check before a view is opened. -/
theorem barred?_eq (writable : Bool) :
    (if writable then u.pool.viewed? else u.pool.written?) =
      if σ.bars writable then some .storageBorrowed else none := by
  unfold Store.bars
  cases writable with
  | true =>
    rw [if_pos rfl, r.viewed?_eq]
    cases hviews : σ.views <;> simp
  | false =>
    have hpos : 0 < u.pool.writers ↔ (σ.views.any fun v => false || v.2) = true := by
      rw [r.writers_eq, List.countP_pos_iff, r.views_eq, List.any_map, List.any_eq_true]
      rfl
    rw [if_neg Bool.false_ne_true, Pool.written?]
    simp only [hpos]

/-! ## Steps of both -/

/-- An entry is put into both, where no view is open or the handle has an entry already. -/
theorem put (update : u.pool.Update h (some values.toList) p')
    (hh : u.views = [] ∨ h ∈ σ.entries) :
    Represents limit { u with pool := p' } (σ.put h values) := by
  have hlookup : ∀ k, p'.contents k = ((σ.put h values).entries.lookup k).map List.Vector.toList := by
    intro k
    by_cases hk : k = h
    · subst hk
      rw [update.contents_self, Store.put, Finmap.lookup_insert]
      rfl
    · rw [update.contents_of_ne hk, r.shown, Store.put, Finmap.lookup_insert_of_ne _ hk]
  refine ⟨update.wellFormed, update.stride_eq.trans r.stride_eq, ?_, hlookup, ?_, r.views_eq,
    r.position_eq, ?_, ?_, update.readers_eq.trans r.readers_eq,
    update.writers_eq.trans r.writers_eq⟩
  · rw [← r.limit_eq, update.config_eq]
  · have hadd := update.live_add
    rw [Option.isSome_some, Bool.toNat_true] at hadd
    by_cases hmem : h ∈ σ.entries
    · rw [r.isSome_contents_iff.mpr hmem, Bool.toNat_true] at hadd
      rw [Store.size_put_of_mem values hmem, r.size_eq]
      exact (Nat.add_right_cancel hadd).symm
    · have hnone : (u.pool.contents h).isSome = false := by
        simpa using mt r.isSome_contents_iff.mp hmem
      rw [hnone, Bool.toNat_false] at hadd
      rw [Store.size_put_of_notMem values hmem, r.size_eq]
      exact hadd.symm
  · intro v hv
    exact Nat.lt_of_lt_of_le (r.position_lt v hv) update.totalSlots_le
  · intro v hv k hk
    rcases hh with hnil | hmem
    · rw [hnil] at hv
      cases hv
    · refine r.only v hv k ?_
      by_cases heq : k = h
      · subst heq
        exact r.isSome_contents_iff.mpr hmem
      · rwa [update.contents_of_ne heq] at hk

/-- An entry is removed from both; open views stay. -/
theorem remove (hh : h ∈ σ.entries) (update : u.pool.Update h none p') :
    Represents limit { u with pool := p' } (σ.remove h) := by
  have hlookup : ∀ k, p'.contents k = ((σ.remove h).entries.lookup k).map List.Vector.toList := by
    intro k
    by_cases hk : k = h
    · subst hk
      rw [update.contents_self, Store.remove, Finmap.lookup_erase]
      rfl
    · rw [update.contents_of_ne hk, r.shown, Store.remove, Finmap.lookup_erase_ne hk]
  refine ⟨update.wellFormed, update.stride_eq.trans r.stride_eq, ?_, hlookup, ?_, r.views_eq,
    r.position_eq, ?_, ?_, update.readers_eq.trans r.readers_eq,
    update.writers_eq.trans r.writers_eq⟩
  · rw [← r.limit_eq, update.config_eq]
  · have hadd := update.live_add
    have hsize := Store.size_remove hh
    rw [r.isSome_contents_iff.mpr hh, Option.isSome_none, Bool.toNat_true, Bool.toNat_false] at hadd
    rw [r.size_eq] at hsize
    exact Nat.add_right_cancel (hsize.trans hadd.symm)
  · intro v hv
    exact Nat.lt_of_lt_of_le (r.position_lt v hv) update.totalSlots_le
  · intro v hv k hk
    refine r.only v hv k ?_
    by_cases heq : k = h
    · subst heq
      exact r.isSome_contents_iff.mpr hh
    · rwa [update.contents_of_ne heq] at hk

/-- Views come and go without a change to an entry. -/
theorem recount {views : List (Handle × View)} (readers writers reserved : Nat)
    (hviews : ∀ v ∈ views,
      v ∈ u.views ∨ v.2.position = v.1.index.toNat ∧ (u.pool.contents v.1).isSome)
    (hreaders : readers = views.countP fun v => !v.2.writable)
    (hwriters : writers = views.countP fun v => v.2.writable) :
    Represents limit ⟨{ u.pool with readers, writers, reserved }, views⟩
      { σ with views := views.map fun v => (v.1, v.2.writable) } := by
  refine ⟨Pool.wellFormed_counts r.wellFormed _ _ _, r.stride_eq, r.limit_eq, r.shown, r.size_eq,
    rfl, ?_, ?_, ?_, hreaders, hwriters⟩
  · intro v hv
    rcases hviews v hv with hold | ⟨hposition, -⟩
    · exact r.position_eq v hold
    · exact hposition
  · intro v hv
    rcases hviews v hv with hold | ⟨hposition, hsome⟩
    · exact r.position_lt v hold
    · rw [hposition]
      exact ((Pool.isSome_contents r.wellFormed).mp hsome).2.lt
  · intro v hv k hk hindex
    rcases hviews v hv with hold | ⟨-, hsome⟩
    · exact r.only v hold k hk hindex
    · exact Pool.eq_of_index_eq r.wellFormed hk hsome hindex

/-- Reserving memory is nothing that the store knows of. -/
theorem reserve (n : Nat) : Represents limit { u with pool := u.pool.reserve n } σ := by
  obtain ⟨reserved, heq⟩ := u.pool.reserve_eq n
  have hsame := r.recount _ _ reserved (fun v hv => .inl hv) r.readers_eq r.writers_eq
  rw [← r.views_eq] at hsame
  rw [heq]
  exact hsame

/-- A view is opened on both. -/
theorem viewOpened (hh : σ.entries.lookup h = some values) (writable : Bool) :
    Represents limit
      ⟨u.pool.viewOpened writable, u.views ++ [(h, ⟨h.index.toNat, writable⟩)]⟩
      { σ with views := σ.views ++ [(h, writable)] } := by
  have hsome : (u.pool.contents h).isSome := by
    rw [r.shown, hh]
    rfl
  have hviews : ∀ v ∈ u.views ++ [(h, ⟨h.index.toNat, writable⟩)],
      v ∈ u.views ∨ v.2.position = v.1.index.toNat ∧ (u.pool.contents v.1).isSome := by
    intro v hv
    rcases List.mem_append.mp hv with hold | hnew
    · exact .inl hold
    · rw [List.mem_singleton.mp hnew]
      exact .inr ⟨rfl, hsome⟩
  have hopened := fun readers writers => r.recount readers writers u.pool.reserved hviews
  rw [List.countP_append, ← r.readers_eq, List.countP_append, ← r.writers_eq, List.map_append,
    ← r.views_eq] at hopened
  cases writable with
  | true => exact hopened _ _ rfl rfl
  | false => exact hopened _ _ rfl rfl

/-- A view is closed on both. -/
theorem viewClosed {place : Nat} {v : Handle × View} (hv : u.views[place]? = some v) :
    Represents limit ⟨u.pool.closeView v.2, u.views.eraseIdx place⟩
      { σ with views := σ.views.eraseIdx place } := by
  obtain ⟨hlt, hget⟩ := List.getElem?_eq_some_iff.mp hv
  have hperm : (v :: u.views.eraseIdx place).Perm u.views :=
    hget ▸ List.getElem_cons_eraseIdx_perm hlt
  have hreaders := hperm.countP_eq fun v => !v.2.writable
  have hwriters := hperm.countP_eq fun v => v.2.writable
  rw [List.countP_cons, ← r.readers_eq] at hreaders
  rw [List.countP_cons, ← r.writers_eq] at hwriters
  have hkept : ∀ v' ∈ u.views.eraseIdx place,
      v' ∈ u.views ∨ v'.2.position = v'.1.index.toNat ∧ (u.pool.contents v'.1).isSome :=
    fun v' hv' => .inl (List.mem_of_mem_eraseIdx hv')
  have hclosed := fun readers writers => r.recount readers writers u.pool.reserved hkept
  rw [← List.eraseIdx_map, ← r.views_eq] at hclosed
  unfold Pool.closeView
  cases hw : v.2.writable with
  | true =>
    simp only [hw, Bool.not_true, Bool.false_eq_true, if_false, Nat.add_zero, if_true]
      at hreaders hwriters
    exact hclosed _ _ hreaders.symm (by omega)
  | false =>
    simp only [hw, Bool.not_false, Bool.false_eq_true, if_false, Nat.add_zero, if_true]
      at hreaders hwriters
    exact hclosed _ _ (by omega) hwriters.symm

/-- What is written through a view is seen through the view's own handle only, and through
none if its entry has been removed. -/
theorem contents_written {v : Handle × View} (hv : v ∈ u.views) {new : List Scalar}
    (hlen : new.length = u.pool.stride) (k : Handle) :
    (u.pool.withBlock v.2.position new).contents k =
      if k = v.1 then (u.pool.contents k).map fun _ => new else u.pool.contents k := by
  rw [Pool.contents_withBlock r.wellFormed (r.position_lt v hv) hlen, r.position_eq v hv]
  by_cases hk : k = v.1
  · rw [if_pos hk, if_pos (by rw [hk])]
  · rw [if_neg hk]
    split
    · rename_i hindex
      cases hshown : u.pool.contents k with
      | none => rfl
      | some old =>
        have hsome : (u.pool.contents k).isSome := by
          rw [hshown]
          rfl
        exact absurd (r.only v hv k hsome (UInt32.toNat_inj.mp hindex)) hk
    · rfl

/-- A write through a view keeps the pool standing for a store with the entries that it is
seen to have. -/
theorem written {v : Handle × View} (hv : v ∈ u.views) {new : List Scalar}
    (hlen : new.length = u.pool.stride) {σ' : Store stride} (hviews : σ'.views = σ.views)
    (hsize : σ'.size = σ.size)
    (hentries : ∀ k, (σ'.entries.lookup k).map List.Vector.toList =
      if k = v.1 then (u.pool.contents k).map fun _ => new else u.pool.contents k) :
    Represents limit { u with pool := u.pool.withBlock v.2.position new } σ' := by
  have wf := Pool.wellFormed_withBlock r.wellFormed
    (r.wellFormed.spans (r.position_lt v hv)) hlen
  refine ⟨wf, r.stride_eq, r.limit_eq, fun k => ?_, hsize.trans r.size_eq, hviews.trans r.views_eq,
    r.position_eq, r.position_lt, fun v' hv' k hk => ?_, r.readers_eq, r.writers_eq⟩
  · exact (r.contents_written hv hlen k).trans (hentries k).symm
  · refine r.only v' hv' k ?_
    rw [r.contents_written hv hlen] at hk
    split at hk
    · rwa [Option.isSome_map] at hk
    · exact hk

/-- A write through a view changes the view's entry. -/
theorem written_put {v : Handle × View} (hv : v ∈ u.views)
    (hh : σ.entries.lookup v.1 = some values) (new : Block stride) :
    Represents limit { u with pool := u.pool.withBlock v.2.position new.toList } (σ.put v.1 new) := by
  have hlen : new.toList.length = u.pool.stride := new.toList_length.trans r.stride_eq.symm
  have hsize := Store.size_put_of_mem new (Finmap.mem_of_lookup_eq_some hh)
  refine r.written hv hlen rfl hsize fun k => ?_
  by_cases hk : k = v.1
  · rw [if_pos hk, hk, Store.put, Finmap.lookup_insert, r.shown, hh]
    rfl
  · rw [if_neg hk, Store.put, Finmap.lookup_insert_of_ne _ hk, r.shown]

/-- A write through a view whose entry has been removed is seen by nobody else. -/
theorem written_removed {v : Handle × View} (hv : v ∈ u.views)
    (hh : σ.entries.lookup v.1 = none) {new : List Scalar} (hlen : new.length = u.pool.stride) :
    Represents limit { u with pool := u.pool.withBlock v.2.position new } σ := by
  refine r.written hv hlen rfl rfl fun k => ?_
  rw [r.shown]
  split
  · rename_i hk
    rw [hk, hh]
    rfl
  · rfl

end Represents

/-! ## Every request -/

open Represents

theorem reply_decided {α : Type} {a : α} {cause : Option PoolError} {answer : α → PoolReply} :
    u.reply (.decided cause (a, p')) answer =
      match cause with
      | some e => (.refused e, u)
      | none => (answer a, { u with pool := p' }) := by
  cases cause <;> rfl

/-- A view of a live slot shows the slot's entry. -/
theorem look_eq (r : Represents limit u σ) {position : Nat} (hp : position < u.pool.totalSlots) :
    u.look position = .shown (u.pool.block position) := by
  unfold look
  rw [Pool.slotValues_eq (r.wellFormed.spans hp)]

/-- Adding an entry: the pool's next slot is taken for its values. -/
theorem adds (r : Represents limit u σ) (hview : σ.views = []) {answer : PoolReply × PoolSession}
    (update : u.pool.isViewed = false → u.pool.live < u.pool.config.slotLimit →
      u.pool.Update u.pool.nextHandle (some values.toList) p')
    (heq : answer = match u.pool.full? with
      | some e => (.refused e, u)
      | none => (.issued u.pool.nextHandle, { u with pool := p' })) :
    ∃ σ', σ.Adds limit values answer.1 σ' ∧ Represents limit answer.2 σ' := by
  unfold Store.Adds
  rw [heq, r.full?_eq]
  by_cases hfull : σ.size = limit
  · simp only [if_pos hfull]
    exact ⟨σ, ⟨rfl, rfl⟩, r⟩
  · simp only [if_neg hfull]
    have hroom : u.pool.live < u.pool.config.slotLimit := by
      rw [← Pool.full?_eq_none_iff, r.full?_eq, if_neg hfull]
    have hunviewed : u.pool.isViewed = false := by
      simpa [hview] using mt r.isViewed_eq.mp
    have hupdate := update hunviewed hroom
    have hnew : u.pool.nextHandle ∉ σ.entries := by
      rw [← r.isSome_contents_iff, Pool.contents_nextHandle r.wellFormed]
      simp
    have hvalid := Pool.isValid_of_contents hupdate.wellFormed hupdate.contents_self
    have hnil : u.views = [] := by
      have hviews := r.views_eq
      rw [hview] at hviews
      exact List.map_eq_nil_iff.mp hviews.symm
    refine ⟨σ.put u.pool.nextHandle values, ⟨_, hnew, ?_, rfl, rfl⟩, r.put hupdate (.inl hnil)⟩
    simpa [Handle.isValid] using hvalid

section Requests

variable (r : Represents limit u σ)

include r

theorem allocate_answers :
    ∃ σ', σ.Answers limit .allocate (u.perform .allocate).1 σ' ∧
      Represents limit (u.perform .allocate).2 σ' := by
  have wf := r.wellFormed
  unfold perform Store.Answers
  simp only [Pool.allocate_eq wf, reply_decided, r.viewed?_eq]
  split
  · exact ⟨σ, ⟨rfl, rfl⟩, r⟩
  · rename_i hview
    refine adds r (not_not.mp hview) (fun hunviewed hroom => ?_) rfl
    have hzeros : (Block.zeros stride).toList = u.pool.zeros := by
      rw [← r.stride_eq]
      rfl
    rw [hzeros]
    exact Pool.update_taken wf hunviewed hroom

theorem duplicate_answers (h : Handle) :
    ∃ σ', σ.Answers limit (.duplicate h) (u.perform (.duplicate h)).1 σ' ∧
      Represents limit (u.perform (.duplicate h)).2 σ' := by
  have wf := r.wellFormed
  unfold perform Store.Answers
  simp only [Pool.duplicate_eq wf, reply_decided, r.viewed?_eq]
  split
  · exact ⟨σ, ⟨rfl, rfl⟩, r⟩
  · rename_i hview
    cases hh : σ.entries.lookup h with
    | none =>
      obtain ⟨flaw, hflaw⟩ := r.flawed?_of_none hh
      simp only [Option.none_or, hflaw, Option.some_or]
      exact ⟨σ, ⟨flaw, rfl, rfl⟩, r⟩
    | some values =>
      simp only [Option.none_or, r.flawed?_of_lookup hh, r.block_of_lookup hh]
      refine adds r (not_not.mp hview) (fun hunviewed hroom => ?_) rfl
      exact Pool.update_filled wf hunviewed hroom (by rw [values.toList_length, r.stride_eq])

theorem release_answers (h : Handle) :
    ∃ σ', σ.Answers limit (.release h) (u.perform (.release h)).1 σ' ∧
      Represents limit (u.perform (.release h)).2 σ' := by
  have wf := r.wellFormed
  unfold perform Store.Answers
  simp only [Pool.release_eq wf, reply_decided]
  cases hh : σ.entries.lookup h with
  | none =>
    obtain ⟨flaw, hflaw⟩ := r.flawed?_of_none hh
    simp only [hflaw]
    exact ⟨σ, ⟨flaw, rfl, rfl⟩, r⟩
  | some values =>
    have hmem := Finmap.mem_of_lookup_eq_some hh
    simp only [r.flawed?_of_lookup hh]
    exact ⟨σ.remove h, ⟨trivial, rfl⟩,
      r.remove hmem (Pool.update_released wf (r.isSome_contents_iff.mpr hmem))⟩

theorem openView_answers (h : Handle) (writable : Bool) :
    ∃ σ', σ.Answers limit (.openView h writable) (u.perform (.openView h writable)).1 σ' ∧
      Represents limit (u.perform (.openView h writable)).2 σ' := by
  have wf := r.wellFormed
  unfold perform Store.Answers
  simp only [Pool.openView_eq wf]
  cases hh : σ.entries.lookup h with
  | none =>
    obtain ⟨flaw, hflaw⟩ := r.flawed?_of_none hh
    simp only [hflaw, Option.some_or]
    exact ⟨σ, ⟨flaw, rfl, rfl⟩, r⟩
  | some values =>
    have hlt := (Pool.liveAt_of_flawed? wf (r.flawed?_of_lookup hh)).lt
    simp only [r.flawed?_of_lookup hh, Option.none_or, r.barred?_eq]
    split
    · exact ⟨σ, ⟨rfl, rfl⟩, r⟩
    · simp only [Attempt.decided_none, look_eq r hlt, r.block_of_lookup hh]
      exact ⟨_, ⟨trivial, rfl⟩, r.viewOpened hh writable⟩

theorem readView_answers (place : Nat) :
    ∃ σ', σ.Answers limit (.readView place) (u.perform (.readView place)).1 σ' ∧
      Represents limit (u.perform (.readView place)).2 σ' := by
  have wf := r.wellFormed
  unfold perform Store.Answers
  simp only [r.views_eq, List.getElem?_map]
  cases hv : u.views[place]? with
  | none => exact ⟨σ, ⟨rfl, rfl⟩, r⟩
  | some v =>
    have hmem := List.mem_of_getElem? hv
    have hlen := Pool.length_block (wf.spans (r.position_lt v hmem))
    refine ⟨σ, ⟨⟨⟨_, hlen.trans r.stride_eq⟩, look_eq r (r.position_lt v hmem), ?_⟩, rfl⟩, r⟩
    intro values hh
    refine List.Vector.eq _ _ ?_
    rw [← r.block_of_lookup hh, ← r.position_eq v hmem]
    rfl

theorem writeView_answers (place : Nat) (new : List Scalar) :
    ∃ σ', σ.Answers limit (.writeView place new) (u.perform (.writeView place new)).1 σ' ∧
      Represents limit (u.perform (.writeView place new)).2 σ' := by
  have wf := r.wellFormed
  unfold perform Store.Answers
  simp only [r.views_eq, List.getElem?_map]
  cases hv : u.views[place]? with
  | none => exact ⟨σ, ⟨rfl, rfl⟩, r⟩
  | some v =>
    have hmem := List.mem_of_getElem? hv
    have hspans := wf.spans (r.position_lt v hmem)
    cases hw : v.2.writable with
    | false =>
      simp only [Option.map_some, hw, Bool.false_eq_true, if_false]
      exact ⟨σ, ⟨trivial, rfl⟩, r⟩
    | true =>
      have hlen : (overlay new (u.pool.block v.2.position)).length = u.pool.stride := by
        rw [length_overlay, Pool.length_block hspans]
      simp only [Option.map_some, hw, if_true, Pool.overwriteAt_eq hspans]
      cases hh : σ.entries.lookup v.1 with
      | none =>
        exact ⟨σ, ⟨⟨⟨_, hlen.trans r.stride_eq⟩, rfl⟩, rfl⟩, r.written_removed hmem hh hlen⟩
      | some values =>
        rw [r.position_eq v hmem, r.block_of_lookup hh, ← r.position_eq v hmem]
        exact ⟨_, ⟨rfl, rfl⟩, r.written_put hmem hh (values.overlaid new)⟩

theorem closeView_answers (place : Nat) :
    ∃ σ', σ.Answers limit (.closeView place) (u.perform (.closeView place)).1 σ' ∧
      Represents limit (u.perform (.closeView place)).2 σ' := by
  unfold perform Store.Answers
  simp only [r.views_eq, List.getElem?_map]
  cases hv : u.views[place]? with
  | none => exact ⟨σ, ⟨rfl, rfl⟩, r⟩
  | some v =>
    rw [← r.views_eq]
    exact ⟨_, ⟨rfl, rfl⟩, r.viewClosed hv⟩

end Requests

/-- Whatever is asked of the pool, the store allows the pool's reply, and the pool stands for
the store afterwards. -/
theorem perform_answers (r : Represents limit u σ) (request : PoolRequest) :
    ∃ σ', σ.Answers limit request (u.perform request).1 σ' ∧
      Represents limit (u.perform request).2 σ' := by
  cases request with
  | reserve n => exact ⟨σ, ⟨rfl, rfl⟩, r.reserve n⟩
  | allocate => exact allocate_answers r
  | duplicate h => exact duplicate_answers r h
  | release h => exact release_answers r h
  | openView h writable => exact openView_answers r h writable
  | readView place => exact readView_answers r place
  | writeView place new => exact writeView_answers r place new
  | closeView place => exact closeView_answers r place

/-- A pool that stands for a store answers any sequence of requests as the store may. -/
theorem run_answers (r : Represents limit u σ) (requests : List PoolRequest) :
    ∃ σ', Store.Run limit σ (u.run requests).1 σ' ∧ Represents limit (u.run requests).2 σ' := by
  induction requests generalizing u σ with
  | nil => exact ⟨σ, .nil σ, r⟩
  | cons request rest ih =>
    obtain ⟨σ', hanswer, r'⟩ := perform_answers r request
    obtain ⟨σ'', hrun, r''⟩ := ih r'
    exact ⟨σ'', .cons hanswer hrun, r''⟩

/-- **A pool refines the abstract store.** From its making on, over any sequence of requests
with any handles, every reply of a pool is one that the store allows where it stands, and the
pool stands for the store again. -/
theorem run_refines_store (number : Nat) (config : PoolConfig) (requests : List PoolRequest) :
    ∃ σ : Store config.stride,
      Store.Run config.slotLimit {} ((start ⟨number + 1⟩ config).run requests).1 σ ∧
        Represents config.slotLimit ((start ⟨number + 1⟩ config).run requests).2 σ := by
  have hid : (⟨number + 1⟩ : PoolId) ≠ .none := by
    intro he
    cases he
  exact run_answers (represents_start _ config hid) requests

end PoolSession

end ParticleStore
