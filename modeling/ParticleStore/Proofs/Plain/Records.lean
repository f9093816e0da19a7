/-
ParticleStore.Proofs.Plain.Records — what plain particles show, and their records.

What can be seen of a particle that owns its slot is what can be seen of its plain
particle, up to the handle: its values, its snapshot, its record (`values_plain`,
`snapshot_plain`, `encode_plain`). Records that come from a stream or one after the
other from a buffer make particles whose plain ones are those made by the plain session
(`load_mirrors`, `decodeOnto_mirrors`).
-/
import ParticleStore.Proofs.Plain.Operations
import ParticleStore.Proofs.Plain.Session
import ParticleStore.Proofs.Session.Tenancy

namespace ParticleStore

open ParticleStore.Action World

variable {dim spacedim : Nat} {w : World} {views : List OpenView} {p : Particle dim spacedim}
  {ps made : List (Particle dim spacedim)}

/-- What is seen of a particle, but for its handle. -/
def Snapshot.veiled (shown : Snapshot dim spacedim) : Snapshot dim spacedim :=
  { shown with handle := .invalid }

namespace Particle

theorem Owning.of_tenancy (t : Tenancy True w ps) (hp : p ∈ ps) : p.Owning w :=
  ⟨t.placed p hp, fun slot hslot =>
    (t.owns trivial).live slot (List.mem_flatMap.mpr ⟨p, hp, hslot⟩)⟩

section Shown

variable (wf : w.WellFormed) (owning : p.Owning w)

include wf owning

theorem hasProperties_plain (views : List OpenView) :
    p.hasProperties = (p.plain views w).own.isSome := by
  unfold hasProperties
  cases hs : p.slot? with
  | none => rw [plain_of_none hs]; rfl
  | some slot =>
    obtain ⟨i, h⟩ := slot
    obtain ⟨pl, -, -, -, -, -, hown, -⟩ := owning.held views wf hs
    rw [hown]
    rfl

theorem values_plain (views : List OpenView) :
    p.values w = (p.plain views w).values w.plain := by
  unfold PlainParticle.values
  cases hs : p.slot? with
  | none =>
    rw [held?_of_none hs, values, hs]
  | some slot =>
    obtain ⟨i, h⟩ := slot
    obtain ⟨pl, hp, wfp, hgood, -, -, -, hheld⟩ := owning.held views wf hs
    rw [values_of_slot hs hp wfp, hheld, hgood, Option.none_or]
    simp only [check_plain hp, Pool.plain_written?]

theorem propertyCount_plain (views : List OpenView) :
    p.propertyCount w = (p.plain views w).propertyCount w.plain := by
  unfold PlainParticle.propertyCount
  cases hs : p.slot? with
  | none => rw [held?_of_none hs, propertyCount_of_none hs]
  | some slot =>
    obtain ⟨i, h⟩ := slot
    obtain ⟨pl, hp, -, -, -, -, -, hheld⟩ := owning.held views wf hs
    rw [propertyCount_of_slot hs hp, hheld]
    exact (stride_plain hp).symm

theorem byteWidth_plain (views : List OpenView) :
    p.byteWidth w = (p.plain views w).byteWidth w.plain := by
  rw [byteWidth, PlainParticle.byteWidth, propertyCount_plain wf owning views]

theorem snapshot_plain : (p.snapshot w).veiled = (p.plain views w).snapshot w.plain := by
  have hpool : p.poolId? w = ((p.plain views w).pool.bind (w.plain[·]?)).map PlainPool.id := by
    show (p.pool.bind w.pool?).map Pool.id = (p.pool.bind (w.plain[·]?)).map PlainPool.id
    cases p.pool with
    | none => rfl
    | some i =>
      simp only [Option.bind_some, getElem?_plain]
      cases w.pool? i <;> rfl
  unfold Snapshot.veiled snapshot PlainParticle.snapshot
  rw [hpool, hasProperties_plain wf owning views,
    propertyCount_plain wf owning views, byteWidth_plain wf owning views,
    values_plain wf owning views]
  rfl

theorem encode_plain (views : List OpenView) :
    p.encode w = (p.plain views w).encode w.plain := by
  unfold encode toRecord PlainParticle.encode
  rw [hasProperties_plain wf owning views, values_plain wf owning views]
  cases (p.plain views w).own.isSome with
  | false => rfl
  | true => cases (p.plain views w).values w.plain <;> rfl

theorem save_plain (views : List OpenView) (chunk room : Option Nat) :
    p.save w chunk room = (p.plain views w).save w.plain chunk room := by
  have hsame := encode_plain wf owning views
  unfold save PlainParticle.save
  cases hencode : (p.plain views w).encode w.plain with
  | error failure => simp only [hsame, hencode]
  | ok bytes =>
    cases hdeliver : Stream.deliver chunk room bytes with
    | mk outcome taken => cases outcome <;> simp only [hsame, hencode, hdeliver]

end Shown

theorem accepts_plain (views : List OpenView) (placed : p.Placed w) :
    p.accepts w = (p.plain views w).accepts w.plain := by
  funext count
  unfold accepts PlainParticle.accepts
  split
  · rfl
  · have hsame : (p.plain views w).pool = p.pool := rfl
    rw [hsame]
    cases hpool : p.pool with
    | none => rfl
    | some i =>
      obtain ⟨pl, hp, -⟩ := placed.pool i hpool
      rw [poolFor_eq hp]
      simp only [stride_plain hp]
      cases mismatch? count pl.stride <;> rfl

/-- A particle is loaded as its plain one is. -/
theorem load_mirrors (vw : w.Viewed views) (wf : w.WellFormed) (owning : p.Owning w)
    (chunk : Option Nat) (source : Bytes) :
    ∃ cause p' w' left,
      (p.load chunk source).run w =
        (((decided cause w p' w').1, left), (decided cause w p' w').2) ∧
      (p.plain views w).load w.plain chunk source = (.decided cause (image views p' w'), left) := by
  rw [run_load]
  unfold PlainParticle.load
  rw [accepts_plain views owning.toPlaced]
  cases hreceive : receiveRecord dim spacedim chunk ((p.plain views w).accepts w.plain) source with
  | mk received left =>
    cases received with
    | error failure =>
      rw [← accepts_plain views owning.toPlaced] at hreceive
      obtain ⟨cause, rfl⟩ := receiveRecord_error (fun _ _ => accepts_error owning.toPlaced) hreceive
      exact ⟨some cause, p, w, left, rfl, rfl⟩
    | ok bytes =>
      simp only
      cases (Record.decoder dim spacedim).run bytes with
      | error cause => exact ⟨some _, p, w, left, rfl, rfl⟩
      | ok result =>
        obtain ⟨cause, p', w', he, hr⟩ := absorb_mirrors (r := result.1) vw wf owning
        refine ⟨cause, p', w', left, ?_, ?_⟩
        · simp only [he]
        · simp only [hr]

end Particle

open Particle

namespace Batch

theorem byteWidth_plain (wf : w.WellFormed) (owning : ∀ p ∈ ps, p.Owning w) :
    byteWidth w ps =
      (ps.map (Particle.plain views w)).foldr (fun q total => q.byteWidth w.plain + total) 0 := by
  unfold byteWidth
  induction ps with
  | nil => rfl
  | cons p rest ih =>
    have hrest := ih fun q hq => owning q (List.mem_cons_of_mem p hq)
    rw [List.map_cons, List.foldr_cons, List.foldr_cons, hrest,
      Particle.byteWidth_plain wf (owning p List.mem_cons_self) views]

theorem encode_plain (wf : w.WellFormed) (owning : ∀ p ∈ ps, p.Owning w) :
    encode w ps = PlainParticle.encodeAll w.plain (ps.map (Particle.plain views w)) := by
  induction ps with
  | nil => rfl
  | cons p rest ih =>
    have hrest := ih fun q hq => owning q (List.mem_cons_of_mem p hq)
    rw [List.map_cons, encode, PlainParticle.encodeAll, hrest,
      Particle.encode_plain wf (owning p List.mem_cons_self) views]

end Batch

namespace PlainParticle

variable {from? : Option Nat} {pools : PlainPools} {done : List (PlainParticle dim spacedim)}
  {input rest : Bytes}

theorem decodeAll_nil : decodeAll from? pools done [] = (.ok (done, pools), []) := by
  rw [decodeAll]
  rfl

theorem decodeAll_error {cause : RecordError} (hne : input ≠ [])
    (hd : (Record.decoder dim spacedim).run input = .error cause) :
    decodeAll from? pools done input = (Attempt.refuse (.malformed cause), input) := by
  rw [decodeAll, if_neg hne]
  split
  · rename_i cause' he
    rw [hd] at he
    cases he
    rfl
  · rename_i he
    rw [hd] at he
    cases he

theorem decodeAll_ok {r : Record dim spacedim}
    (hd : (Record.decoder dim spacedim).run input = .ok (r, rest)) :
    decodeAll from? pools done input =
      match ofRecord pools from? r with
      | .error failure => (.error failure, input)
      | .ok (q, pools) => decodeAll from? pools (done ++ [q]) rest := by
  have hne : input ≠ [] := by
    rintro rfl
    exact absurd (Record.length_lt_of_decode hd) (Nat.not_lt_zero _)
  rw [decodeAll, if_neg hne]
  split
  · rename_i he
    rw [hd] at he
    cases he
  · rename_i he
    rw [hd] at he
    cases he
    rfl

end PlainParticle

namespace Batch

/-- The particles read from a buffer are those that a plain session reads. -/
theorem decodeOnto_mirrors {pool : Option Nat} (made : List (Particle dim spacedim))
    (vw : w.Viewed views) (t : Tenancy True w (made ++ ps))
    (hpool : ∀ i, pool = some i → (w.pool? i).isSome) (input : Bytes) :
    ∃ reading w', (decodeOnto pool made input).run w = (reading, w') ∧
      PlainParticle.decodeAll pool w.plain (made.map (Particle.plain views w)) input =
        (match reading.outcome with
          | .ok made' => .ok (made'.map (Particle.plain views w'), w'.plain)
          | .error failure => .error failure, reading.rest) := by
  -- on the bytes left, each record being shorter than what it was read from
  induction hlength : input.length using Nat.strongRecOn generalizing w made input with
  | _ n ih =>
  subst hlength
  have wf := t.wellFormed
  have placed : ∀ p ∈ made, p.Placed w := fun p hp => t.placed p (List.mem_append_left _ hp)
  by_cases hne : input = []
  · subst hne
    exact ⟨_, _, run_decodeOnto_nil, PlainParticle.decodeAll_nil⟩
  · cases hd : (Record.decoder dim spacedim).run input with
    | error cause =>
      refine ⟨_, _, (run_decodeOnto_error hne hd).trans (run_giveUp wf placed), ?_⟩
      exact PlainParticle.decodeAll_error hne hd
    | ok result =>
      obtain ⟨r, rest⟩ := result
      obtain ⟨cause, p, w₁, he, hr⟩ := ofRecord_mirrors (r := r) vw wf hpool
      rw [run_decodeOnto_ok hd, he, PlainParticle.decodeAll_ok hd, hr]
      cases cause with
      | some e => exact ⟨_, _, run_giveUp wf placed, rfl⟩
      | none =>
        have hmade := (ofRecord_settles (r := r) wf
          fun i hi => Option.isSome_iff_exists.mp (hpool i hi)).ok he
        have e := hmade.trade.evolves
        have hframe : made.map (Particle.plain views w₁) = made.map (Particle.plain views w) :=
          List.map_congr_left fun q hq =>
            plain_congr (t.frame [] hmade.trade (List.mem_append_left _ hq))
        have t' : Tenancy True w₁ ((made ++ [p]) ++ ps) := by
          refine (t.born hmade).perm ?_
          rw [List.append_assoc]
          exact List.perm_middle.symm
        have hpool' : ∀ i, pool = some i → (w₁.pool? i).isSome := by
          intro i hi
          obtain ⟨pl, hp⟩ := Option.isSome_iff_exists.mp (hpool i hi)
          obtain ⟨pl', hp', -⟩ := e.pool i pl hp
          rw [hp']
          rfl
        obtain ⟨reading, w', hrun, hplain⟩ := ih rest.length (Record.length_lt_of_decode hd) _
          (vw.evolves e) t' hpool' rest rfl
        rw [List.map_append, hframe] at hplain
        exact ⟨reading, w', hrun, hplain⟩

end Batch

end ParticleStore
