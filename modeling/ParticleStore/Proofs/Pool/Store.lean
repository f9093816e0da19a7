/-
ParticleStore.Proofs.Pool.Store — the abstract store that a pool stands for.

A store is a finite map from handles to blocks of scalars, with the list of the
views that are open on it. It has no table, no stack of released slots and no
generations, and no two entries share anything. `Store.Answers` says what each
request to a store may be answered with, and what the store is afterwards. Only two
things are left open: which handle names a new entry, as long as it is a new one,
and what a view shows whose entry has been removed.
-/
import ParticleStore.Pool.View
import Mathlib.Data.Finmap
import Mathlib.Data.Vector.Defs

namespace ParticleStore

/-- The scalars of one slot, as many as the stride. -/
abbrev Block (stride : Nat) : Type := List.Vector Scalar stride

namespace Block

variable {stride : Nat}

/-- The block of zeros. -/
def zeros (stride : Nat) : Block stride := ⟨List.replicate stride .zero, List.length_replicate⟩

/-- The block with values written over its front, as many as fit. -/
def overlaid (new : List Scalar) (b : Block stride) : Block stride :=
  ⟨overlay new b.toList, by rw [length_overlay, b.toList_length]⟩

end Block

/-- What can be asked of a pool. A view is named by its place among the open ones. -/
inductive PoolRequest where
  | reserve (n : Nat)
  | allocate
  | duplicate (h : Handle)
  | release (h : Handle)
  | openView (h : Handle) (writable : Bool)
  | readView (place : Nat)
  | writeView (place : Nat) (values : List Scalar)
  | closeView (place : Nat)
deriving DecidableEq

/-- What a request is answered with. -/
inductive PoolReply where
  | done
  | issued (h : Handle)
  /-- A slot is released, and `left` is in its handle's place. -/
  | released (left : Handle)
  /-- The values that a view shows. -/
  | shown (values : List Scalar)
  /-- There is no such view, or none that can be written through. -/
  | noView
  | refused (cause : PoolError)
  | broken (fault : Fault)
deriving DecidableEq

/-- The reply to a request that fails. -/
def PoolReply.ofFailure : Failure PoolError → PoolReply
  | .refused cause => refused cause
  | .broken fault => broken fault

/-- A finite map from handles to blocks, and the views open on it. -/
structure Store (stride : Nat) where
  entries : Finmap fun _ : Handle => Block stride := ∅
  /-- The open views in the order in which they were opened: the handle each one was
  opened through, and whether values may be written through it. -/
  views : List (Handle × Bool) := []

namespace Store

variable {stride : Nat}

/-- How many entries there are. -/
def size (σ : Store stride) : Nat := σ.entries.keys.card

/-- The store with an entry, new or in place of the one under its handle. -/
def put (σ : Store stride) (h : Handle) (values : Block stride) : Store stride :=
  { σ with entries := σ.entries.insert h values }

/-- The store without an entry. -/
def remove (σ : Store stride) (h : Handle) : Store stride :=
  { σ with entries := σ.entries.erase h }

theorem size_put_of_mem {σ : Store stride} {h : Handle} (values : Block stride)
    (hh : h ∈ σ.entries) : (σ.put h values).size = σ.size := by
  have hkeys : (σ.put h values).entries.keys = σ.entries.keys := by
    ext k
    rw [Finmap.mem_keys, Finmap.mem_keys, put, Finmap.mem_insert]
    exact ⟨fun hk => hk.elim (fun he => he ▸ hh) id, .inr⟩
  rw [size, hkeys, size]

theorem size_put_of_notMem {σ : Store stride} {h : Handle} (values : Block stride)
    (hh : h ∉ σ.entries) : (σ.put h values).size = σ.size + 1 := by
  have hkeys : (σ.put h values).entries.keys = insert h σ.entries.keys := by
    ext k
    rw [Finmap.mem_keys, Finset.mem_insert, Finmap.mem_keys, put, Finmap.mem_insert]
  rw [size, hkeys, Finset.card_insert_of_notMem (by rwa [Finmap.mem_keys]), size]

theorem size_remove {σ : Store stride} {h : Handle} (hh : h ∈ σ.entries) :
    (σ.remove h).size + 1 = σ.size := by
  rw [size, remove, Finmap.keys_erase, Finset.card_erase_add_one (by rwa [Finmap.mem_keys]), size]

/-- An open view bars another one, unless both are for reading. -/
def bars (σ : Store stride) (writable : Bool) : Bool := σ.views.any fun v => writable || v.2

/-- The request is refused, and the store stays what it is. -/
def Refuses (σ : Store stride) (cause : PoolError) (reply : PoolReply) (σ' : Store stride) : Prop :=
  reply = .refused cause ∧ σ' = σ

/-- The request is refused because the handle names no entry. -/
def RefusesHandle (σ : Store stride) (reply : PoolReply) (σ' : Store stride) : Prop :=
  ∃ flaw, σ.Refuses (.invalidHandle flaw) reply σ'

/-- A new entry with these values is made, unless there are as many as the limit already.
The handle is any that names no entry, and not the invalid one. -/
def Adds (limit : Nat) (σ : Store stride) (values : Block stride) (reply : PoolReply)
    (σ' : Store stride) : Prop :=
  if σ.size = limit then σ.Refuses (.outOfResources (σ.size + 1) limit) reply σ'
  else ∃ h, h ∉ σ.entries ∧ h ≠ .invalid ∧ reply = .issued h ∧ σ' = σ.put h values

/-- What a request may be answered with, and the store afterwards. -/
def Answers (limit : Nat) (σ : Store stride) :
    PoolRequest → PoolReply → Store stride → Prop
  | .reserve _, reply, σ' => reply = .done ∧ σ' = σ
  | .allocate, reply, σ' =>
    if σ.views ≠ [] then σ.Refuses .storageBorrowed reply σ'
    else σ.Adds limit (.zeros stride) reply σ'
  | .duplicate h, reply, σ' =>
    if σ.views ≠ [] then σ.Refuses .storageBorrowed reply σ'
    else
      match σ.entries.lookup h with
      | none => σ.RefusesHandle reply σ'
      | some values => σ.Adds limit values reply σ'
  | .release h, reply, σ' =>
    match σ.entries.lookup h with
    | none => σ.RefusesHandle reply σ'
    | some _ => reply = .released .invalid ∧ σ' = σ.remove h
  | .openView h writable, reply, σ' =>
    match σ.entries.lookup h with
    | none => σ.RefusesHandle reply σ'
    | some values =>
      if σ.bars writable then σ.Refuses .storageBorrowed reply σ'
      else reply = .shown values.toList ∧ σ' = { σ with views := σ.views ++ [(h, writable)] }
  | .readView place, reply, σ' =>
    match σ.views[place]? with
    | none => reply = .noView ∧ σ' = σ
    | some (h, _) =>
      (∃ shown : Block stride, reply = .shown shown.toList ∧
        ∀ values, σ.entries.lookup h = some values → shown = values) ∧ σ' = σ
  | .writeView place new, reply, σ' =>
    match σ.views[place]? with
    | some (h, true) =>
      match σ.entries.lookup h with
      | some values => reply = .shown (values.overlaid new).toList ∧ σ' = σ.put h (values.overlaid new)
      | none => (∃ shown : Block stride, reply = .shown shown.toList) ∧ σ' = σ
    | _ => reply = .noView ∧ σ' = σ
  | .closeView place, reply, σ' =>
    match σ.views[place]? with
    | none => reply = .noView ∧ σ' = σ
    | some _ => reply = .done ∧ σ' = { σ with views := σ.views.eraseIdx place }

/-- Requests answered one after the other. -/
inductive Run (limit : Nat) : Store stride → List (PoolRequest × PoolReply) → Store stride → Prop
  | nil (σ : Store stride) : Run limit σ [] σ
  | cons {σ σ' σ'' : Store stride} {request : PoolRequest} {reply : PoolReply}
      {rest : List (PoolRequest × PoolReply)} :
      σ.Answers limit request reply σ' → Run limit σ' rest σ'' →
      Run limit σ ((request, reply) :: rest) σ''

end Store

end ParticleStore
