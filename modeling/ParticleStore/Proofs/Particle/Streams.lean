/-
ParticleStore.Proofs.Particle.Streams — a record from a stream, and a record from a buffer.

`update` reads a record that lies in a buffer, `load` receives one from a stream: the
header first, and the values only if the header's count is allowed. Both decode the
same layout. `receiveRecord_append` and `eq_append_of_receiveRecord` say that what is
received is exactly one record, so that `load` comes down to the record at the front
of the stream (`run_load_append`).

For a particle that holds a live slot the two differ in one case, and only in that one.
`update` compares the record's count with the particle's, whatever it is. `load` compares
it only where values follow: a record without values is taken over by a particle that
has some, which keeps them beside the new coordinates and the new id
(`load_eq_ok_iff_update`).
-/
import ParticleStore.Proofs.Record.RoundTrip
import ParticleStore.Proofs.Session.Sound

namespace ParticleStore

open LittleEndian ParticleStore.Action World

variable {dim spacedim : Nat} {chunk : Option Nat} {n i : Nat} {bytes source rest left excess : Bytes}
  {w w' : World} {pl : Pool} {h : Handle} {p p' : Particle dim spacedim} {r : Record dim spacedim}

/-! ## Receiving -/

namespace Stream

/-- A stream that passes bytes gives as many as are asked for, if it has them. -/
theorem receive_eq (hpass : passes chunk = true) (n : Nat) (source : Bytes) :
    receive chunk n source =
      if n ≤ source.length then (.ok (source.take n), source.drop n) else (.error .endedEarly, []) := by
  unfold receive
  by_cases hempty : n = 0
  · rw [if_pos hempty, hempty, if_pos (Nat.zero_le _)]
    rfl
  · rw [if_neg hempty, hpass, if_neg (by simp)]

theorem receive_append (hpass : passes chunk = true) :
    receive chunk bytes.length (bytes ++ rest) = (.ok bytes, rest) := by
  rw [receive_eq hpass, if_pos (by simp), List.take_left, List.drop_left]

theorem eq_append_of_receive (hreceive : receive chunk n source = (.ok bytes, rest)) :
    source = bytes ++ rest ∧ bytes.length = n := by
  unfold receive at hreceive
  split at hreceive
  · rename_i hempty
    cases hreceive
    exact ⟨rfl, hempty.symm⟩
  · split at hreceive
    · cases hreceive
    · split at hreceive
      · rename_i hle
        cases hreceive
        exact ⟨(List.take_append_drop n source).symm, List.length_take_of_le hle⟩
      · cases hreceive

end Stream

namespace Particle

variable {allowed : Nat → Attempt ParticleError Unit}

theorem declaredCount_of_encode {head : Bytes} {header : Header dim spacedim}
    (henc : header.encode = .ok head) : declaredCount dim spacedim head = header.count := by
  have hlength := Header.length_encode henc
  obtain ⟨hcount, hfields⟩ := Header.encode_eq_ok_iff.mp henc
  rw [← List.append_assoc, ← List.append_assoc] at hfields
  rw [hfields, List.length_append, length_ofWord32] at hlength
  rw [declaredCount, Header.countWidth, hfields, List.drop_left' (by omega), toWord32_ofWord32,
    UInt32.toNat_ofNat_of_lt' hcount]

/-- The record at the front of a stream is received, if its count is allowed. -/
theorem receiveRecord_append (hpass : Stream.passes chunk = true) (henc : r.encode = .ok bytes) :
    receiveRecord dim spacedim chunk allowed (bytes ++ rest) =
      match allowed r.values.length with
      | .error failure => (.error failure, ofScalars r.values ++ rest)
      | .ok () => (.ok bytes, rest) := by
  obtain ⟨head, hhead, rfl⟩ := Record.encode_eq_ok_iff.mp henc
  have hcount : declaredCount dim spacedim head = r.values.length := declaredCount_of_encode hhead
  unfold receiveRecord
  rw [List.append_assoc, ← Header.length_encode hhead, Stream.receive_append hpass]
  simp only [hcount]
  cases allowed r.values.length with
  | error failure => rfl
  | ok _ => simp only [← length_ofScalars, Stream.receive_append hpass]

/-- What is received and decoded is one record, and nothing beyond it. -/
theorem eq_append_of_receiveRecord
    (hreceive : receiveRecord dim spacedim chunk allowed source = (.ok bytes, left))
    (hdecode : (Record.decoder dim spacedim).run bytes = .ok (r, excess)) :
    r.encode = .ok bytes ∧ source = bytes ++ left := by
  obtain ⟨_, henc, hover⟩ := Record.run_decoder_eq_ok_iff.mp hdecode
  obtain ⟨head, hhead, rfl⟩ := Record.encode_eq_ok_iff.mp henc
  unfold receiveRecord at hreceive
  split at hreceive
  · cases hreceive
  · rename_i front middle hfirst
    obtain ⟨rfl, hfront⟩ := Stream.eq_append_of_receive hfirst
    simp only at hreceive
    split at hreceive
    · cases hreceive
    · split at hreceive
      · cases hreceive
      · rename_i body _ hsecond
        cases hreceive
        obtain ⟨rfl, hbody⟩ := Stream.eq_append_of_receive hsecond
        -- the header received is the record's, so as many values follow as it declares
        rw [List.append_assoc] at hover
        obtain ⟨rfl, hvalues⟩ :=
          List.append_inj hover (hfront.trans (Header.length_encode hhead).symm)
        have hcount : declaredCount dim spacedim front = r.values.length :=
          declaredCount_of_encode hhead
        have hnone : excess = [] := by
          rw [hcount, hvalues, List.length_append, length_ofScalars] at hbody
          exact List.eq_nil_of_length_eq_zero (by omega)
        rw [hnone, List.append_nil] at hvalues
        rw [hvalues, List.append_assoc]
        exact ⟨henc, rfl⟩

/-! ## Loading -/

/-- Loading comes down to the record at the front of the stream. -/
theorem run_load_append (hpass : Stream.passes chunk = true) (henc : r.encode = .ok bytes) :
    (p.load chunk (bytes ++ rest)).run w =
      match p.accepts w r.values.length with
      | .error failure => ((.error failure, ofScalars r.values ++ rest), w)
      | .ok () => ((((p.absorb r).exec w).1, rest), ((p.absorb r).exec w).2) := by
  have hdecode : (Record.decoder dim spacedim).run bytes = .ok (r, []) :=
    Record.run_decoder_eq_ok_iff.mpr ⟨bytes, henc, (List.append_nil bytes).symm⟩
  rw [run_load, receiveRecord_append hpass henc]
  cases p.accepts w r.values.length with
  | error failure => rfl
  | ok _ => simp only [hdecode]

/-- Nothing is loaded but a record. -/
theorem exists_record_of_load (hload : (p.load chunk source).run w = ((.ok p', left), w')) :
    ∃ r : Record dim spacedim, (Record.decoder dim spacedim).run source = .ok (r, left) := by
  rw [run_load] at hload
  split at hload
  · cases hload
  · rename_i bytes _ hreceive
    split at hload
    · cases hload
    · rename_i r excess hdecode
      obtain ⟨henc, rfl⟩ := eq_append_of_receiveRecord hreceive hdecode
      obtain rfl := congrArg (fun result => result.1.2) hload
      exact ⟨r, Record.run_decoder_eq_ok_iff.mpr ⟨bytes, henc, rfl⟩⟩

/-- The particle's pool decides which counts are allowed, but for the count zero. -/
theorem accepts_of_slot (hs : p.slot? = some (i, h)) (hp : w.pool? i = some pl) (n : Nat) :
    p.accepts w n = .decided (if n = 0 then none else mismatch? n pl.stride) () := by
  unfold accepts
  split
  · rfl
  · rw [(slot?_eq_some_iff.mp hs).1, poolFor_eq hp]
    cases mismatch? n pl.stride <;> rfl

/-- A slot without room for values is written to without effect. -/
theorem setPool_withBlock_nil (hp : w.pool? i = some pl) (hstride : pl.stride = 0) (j : Nat) :
    w.setPool i (pl.withBlock j []) = w := by
  have hsame : pl.withBlock j [] = pl := by simp [Pool.withBlock, hstride]
  have hset : w.pools.set i pl = w.pools := by
    obtain ⟨hlt, rfl⟩ := List.getElem?_eq_some_iff.mp hp
    exact List.set_getElem_self hlt
  rw [hsame, setPool, hset]

/-- A particle whose slot holds `stride` values loads what it takes over from a buffer, unless
the record has no values and the slot has some. -/
structure LoadsAsUpdated (w : World) (p : Particle dim spacedim) (stride : Nat)
    (chunk : Option Nat) (source : Bytes) : Prop where
  /-- The particle, the bytes left and the pools are the same, and a record without values adds
  the only success that is not shared. It leaves every pool alone. -/
  load_iff : ∀ p' left w', (p.load chunk source).run w = ((.ok p', left), w') ↔
    (p.update source).exec w = (.ok (p', left), w') ∨
      stride ≠ 0 ∧ w' = w ∧ ∃ r : Record dim spacedim,
        (Record.decoder dim spacedim).run source = .ok (r, left) ∧ r.values = [] ∧
          p' = p.relabelled r
  /-- From a buffer the same record is refused. -/
  update_refuses : ∀ (r : Record dim spacedim) left,
    (Record.decoder dim spacedim).run source = .ok (r, left) → r.values = [] → stride ≠ 0 →
      (p.update source).exec w = (Attempt.refuse (.countMismatch 0 stride), w)

section LiveSlot

variable (hs : p.slot? = some (i, h)) (hp : w.pool? i = some pl) (wf : pl.WellFormed)
  (hgood : pl.flawed? h = none) (hview : pl.isViewed = false)

include hs hp wf hgood hview

/-- With a live slot and no view open, only the count is left to refuse an update for. -/
theorem exec_update_of_live (hdecode : (Record.decoder dim spacedim).run source = .ok (r, rest)) :
    (p.update source).exec w =
      decided (mismatch? r.values.length pl.stride) w (p.relabelled r, rest)
        (w.setPool i (pl.withBlock h.index.toNat r.values)) := by
  rw [exec_update_of_slot hdecode hs hp wf, hgood, Pool.viewed?_eq_none_iff.mpr hview]
  simp

/-- A record with values is loaded as it is taken over from a buffer. -/
theorem run_load_of_values (hpass : Stream.passes chunk = true)
    (hdecode : (Record.decoder dim spacedim).run source = .ok (r, rest)) (hv : r.values ≠ []) :
    (p.load chunk source).run w = ((.ok p', left), w') ↔
      (p.update source).exec w = (.ok (p', left), w') := by
  obtain ⟨bytes, henc, rfl⟩ := Record.run_decoder_eq_ok_iff.mp hdecode
  have hlength : r.values.length ≠ 0 := by simpa using hv
  rw [exec_update_of_live hs hp wf hgood hview hdecode, run_load_append hpass henc,
    accepts_of_slot hs hp, if_neg hlength, exec_absorb_of_slot hv hs hp wf, hgood,
    Pool.viewed?_eq_none_iff.mpr hview]
  cases mismatch? r.values.length pl.stride with
  | some cause =>
    constructor
    · intro hload; cases hload
    · intro hupdate; cases hupdate
  | none =>
    constructor
    · intro hload; cases hload; rfl
    · intro hupdate; cases hupdate; rfl

/-- **Loading and updating differ in one case.** A particle that holds a live slot loads what it
would take over from a buffer, with the same result, and beyond that only a record without values
although its slot has some: then it keeps its values. -/
theorem load_eq_ok_iff_update (hpass : Stream.passes chunk = true) :
    (p.load chunk source).run w = ((.ok p', left), w') ↔
      (p.update source).exec w = (.ok (p', left), w') ∨
        pl.stride ≠ 0 ∧ w' = w ∧ ∃ r : Record dim spacedim,
          (Record.decoder dim spacedim).run source = .ok (r, left) ∧ r.values = [] ∧
            p' = p.relabelled r := by
  cases hdecode : (Record.decoder dim spacedim).run source with
  | error cause =>
    rw [exec_update_error hdecode]
    constructor
    · intro hload
      obtain ⟨r, hr⟩ := exists_record_of_load hload
      rw [hdecode] at hr
      cases hr
    · rintro (hupdate | ⟨-, -, r, hr, -⟩)
      · cases hupdate
      · cases hr
  | ok result =>
    obtain ⟨r, rest⟩ := result
    by_cases hv : r.values = []
    · obtain ⟨bytes, henc, rfl⟩ := Record.run_decoder_eq_ok_iff.mp hdecode
      rw [exec_update_of_live hs hp wf hgood hview hdecode, run_load_append hpass henc,
        accepts_of_slot hs hp, exec_absorb_of_empty hv, hv]
      simp only [List.length_nil, if_true, Attempt.decided_none]
      by_cases hstride : pl.stride = 0
      · rw [mismatch?_eq_none_iff.mpr hstride.symm, decided_none, setPool_withBlock_nil hp hstride,
          or_iff_left fun hno => hno.1 hstride]
        constructor
        · intro hload; cases hload; rfl
        · intro hupdate; cases hupdate; rfl
      · have hdiffer : mismatch? 0 pl.stride = some (.countMismatch 0 pl.stride) :=
          if_pos (Ne.symm hstride)
        rw [hdiffer, decided_some, or_iff_right fun hupdate => by cases hupdate]
        constructor
        · intro hload
          cases hload
          exact ⟨hstride, rfl, r, rfl, hv, rfl⟩
        · rintro ⟨-, rfl, _, hr, -, rfl⟩
          cases hr
          rfl
    · rw [run_load_of_values hs hp wf hgood hview hpass hdecode hv, or_iff_left]
      rintro ⟨-, -, _, hr, hnone, -⟩
      cases hr
      exact hv hnone

theorem loadsAsUpdated (hpass : Stream.passes chunk = true) :
    p.LoadsAsUpdated w pl.stride chunk source where
  load_iff _ _ _ := load_eq_ok_iff_update hs hp wf hgood hview hpass
  update_refuses r left hdecode hv hstride := by
    have hdiffer : mismatch? 0 pl.stride = some (.countMismatch 0 pl.stride) :=
      if_pos (Ne.symm hstride)
    rw [exec_update_of_live hs hp wf hgood hview hdecode, hv, List.length_nil, hdiffer, decided_some]

end LiveSlot

end Particle

namespace Session

open Particle

/-- **A particle with a slot loads what it takes over from a buffer.** After any run of steps the
one exception is a record without values, for a particle whose slot has values. -/
theorem loadsAsUpdated_run (steps : List (Step dim spacedim)) (p : Particle dim spacedim)
    (i : Nat) (h : Handle) (pl : Pool) (chunk : Option Nat) (source : Bytes)
    (hs : p.slot? = some (i, h))
    (hp : (run ({} : Session dim spacedim) steps).2.world.pool? i = some pl)
    (hlive : pl.isLive h = true) (hview : pl.isViewed = false)
    (hpass : Stream.passes chunk = true) :
    p.LoadsAsUpdated (run ({} : Session dim spacedim) steps).2.world pl.stride chunk source :=
  have wf := (sound_reached steps).wellFormed.pool i pl hp
  loadsAsUpdated hs hp wf (Pool.flawed?_of_isLive hlive) hview hpass

/-- A record of two values, for a particle with two, is taken over from either. -/
theorem loadsAsUpdated_run_of_values :
    let steps : List (Step 0 0) :=
      [.makePool { stride := 2 }, .make 0, .moveTo 0 0, .setValues 0 [⟨1⟩, ⟨2⟩]]
    let s := (run {} steps).2
    let r : Record 0 0 := ⟨.origin 0, .origin 0, ⟨9⟩, [⟨3⟩, ⟨4⟩]⟩
    ∃ p h pl bytes, s.particles.find? 0 = some p ∧ p.slot? = some (0, h) ∧
      s.world.pool? 0 = some pl ∧ r.encode = .ok bytes ∧
      ((p.update bytes).exec s.world).1 = .ok (p.relabelled r, []) ∧
      p.LoadsAsUpdated s.world pl.stride (some 3) bytes := by
  intro steps s r
  refine ⟨_, _, _, _, rfl, rfl, rfl, rfl, ?_,
    loadsAsUpdated_run steps _ 0 _ _ (some 3) _ rfl rfl rfl rfl rfl⟩
  have hdecode : (Record.decoder 0 0).run _ = .ok (r, []) :=
    Record.run_decoder_eq_ok_iff.mpr ⟨_, rfl, (List.append_nil _).symm⟩
  rw [exec_update_of_live rfl rfl ((sound_reached steps).wellFormed.pool 0 _ rfl) rfl rfl hdecode]
  rfl

/-- A record without values is refused for a particle with a value when it lies in a buffer. From
a stream the particle takes its coordinates and its id, and keeps its value. -/
theorem load_differs_from_update :
    let steps : List (Step 1 1) :=
      [.makePool { stride := 1 }, .make 0, .moveTo 0 0, .setValues 0 [⟨1⟩]]
    let s := (run {} steps).2
    let r : Record 1 1 := ⟨⟨[⟨0x4008000000000000⟩], rfl⟩, ⟨[⟨0x4010000000000000⟩], rfl⟩, ⟨9⟩, []⟩
    ∃ bytes p, r.encode = .ok bytes ∧ s.particles.find? 0 = some p ∧
      (p.update bytes).exec s.world = (Attempt.refuse (.countMismatch 0 1), s.world) ∧
      (p.load none bytes).run s.world = ((.ok (p.relabelled r), []), s.world) ∧
      (p.relabelled r).values s.world = .ok [⟨1⟩] := by
  intro steps s r
  have hdecode : (Record.decoder 1 1).run _ = .ok (r, []) :=
    Record.run_decoder_eq_ok_iff.mpr ⟨_, rfl, (List.append_nil _).symm⟩
  have wf := (sound_reached steps).wellFormed.pool 0 _ rfl
  refine ⟨_, _, rfl, rfl, ?_, ?_, rfl⟩
  · rw [exec_update_of_live rfl rfl wf rfl rfl hdecode]
    rfl
  · exact (load_eq_ok_iff_update rfl rfl wf rfl rfl rfl).mpr
      (.inr ⟨Nat.one_ne_zero, rfl, r, hdecode, rfl, rfl⟩)

end Session

end ParticleStore
