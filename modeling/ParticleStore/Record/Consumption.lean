/-
ParticleStore.Record.Consumption — how many bytes a decoder takes.

A decoder that succeeds leaves a later part of the bytes that it was given. What it
has taken adds up over a sequence of decoders (`Takes.bind`). A record takes at
least its header (`takes_record`), so no record is empty and reading records one
after the other comes to an end (`length_lt_of_decode`).
-/
import ParticleStore.Record.Basic

namespace ParticleStore

namespace Decoder

/-- A success of a sequence of decoders is a success of each. -/
theorem run_bind_eq_ok {α β : Type} {d : Decoder α} {f : α → Decoder β} {input rest : Bytes} {b : β}
    (h : (d >>= f).run input = .ok (b, rest)) :
    ∃ a middle, d.run input = .ok (a, middle) ∧ (f a).run middle = .ok (b, rest) := by
  rw [StateT.run_bind] at h
  cases hd : d.run input with
  | error e => rw [hd] at h; cases h
  | ok pair =>
    rw [hd] at h
    exact ⟨pair.1, pair.2, rfl, h⟩

/-- The basic decoder splits off its width or reports how much there is. -/
theorem run_bytes (width : Nat) (tooFew : Nat → RecordError) (input : Bytes) :
    (bytes width tooFew).run input =
      if width ≤ input.length then .ok (input.take width, input.drop width)
      else .error (tooFew input.length) := by
  unfold bytes
  show StateT.run (if width ≤ input.length then _ else _ : Decoder Bytes) input = _
  by_cases h : width ≤ input.length
  · rw [if_pos h, if_pos h]
    rfl
  · rw [if_neg h, if_neg h]
    rfl

/-! ## Bytes taken -/

/-- The decoder takes at least `n` bytes whenever it succeeds. -/
def Takes {α : Type} (d : Decoder α) (n : Nat) : Prop :=
  ∀ input a rest, d.run input = .ok (a, rest) → rest.length + n ≤ input.length

theorem takes_bytes (width : Nat) (tooFew : Nat → RecordError) :
    Takes (bytes width tooFew) width := by
  intro input a rest h
  rw [run_bytes] at h
  split at h
  · cases h
    rw [List.length_drop]
    omega
  · cases h

theorem takes_pure {α : Type} (a : α) : Takes (pure a) 0 := by
  intro input b rest h
  cases h
  exact Nat.le_refl _

theorem Takes.bind {α β : Type} {d : Decoder α} {f : α → Decoder β} {m n : Nat}
    (hd : Takes d m) (hf : ∀ a, Takes (f a) n) : Takes (d >>= f) (m + n) := by
  intro input b rest h
  obtain ⟨a, middle, first, second⟩ := run_bind_eq_ok h
  have taken := hd _ _ _ first
  have more := hf _ _ _ _ second
  omega

theorem Takes.map {α β : Type} {d : Decoder α} {n : Nat} (hd : Takes d n) (f : α → β) :
    Takes (do return f (← d)) n :=
  hd.bind fun a => takes_pure (f a)

theorem takes_available : Takes available 0 := by
  intro input a rest h
  cases h
  exact Nat.le_refl _

theorem takes_error {α : Type} (e : RecordError) (n : Nat) : Takes (throw e : Decoder α) n := by
  intro input a rest h
  cases h

theorem takes_word32 : Takes word32 4 := (takes_bytes 4 _).map _

theorem takes_word64 : Takes word64 8 := (takes_bytes 8 _).map _

theorem takes_scalar : Takes scalar Scalar.byteWidth := (takes_bytes _ _).map _

theorem takes_scalars (n : Nat) : Takes (scalars n) (n * Scalar.byteWidth) :=
  (takes_bytes _ _).map _

end Decoder

open Decoder

namespace Header

theorem takes_point (dim : Nat) : Takes (point dim) (dim * Scalar.byteWidth) := by
  induction dim with
  | zero => exact (takes_pure _)
  | succ dim ih =>
    have here := takes_scalar.bind fun x => (ih.map fun p =>
      (⟨x :: p.coords, by rw [List.length_cons, p.length_coords]⟩ : Point (dim + 1)))
    have size : Scalar.byteWidth + dim * Scalar.byteWidth = (dim + 1) * Scalar.byteWidth := by
      rw [Nat.succ_mul, Nat.add_comm]
    exact size ▸ here

/-- A header takes the bytes of its coordinates, id and count. -/
theorem takes_header (dim spacedim : Nat) :
    Takes (Header.decoder dim spacedim) (byteWidth dim spacedim) := by
  have tail : ∀ (location : Point spacedim) (reference : Point dim) (id : UInt64) (count : UInt32),
      Takes (do
        let needed := count.toNat * Scalar.byteWidth
        let available ← Decoder.available
        if available < needed then
          throw (.truncatedRecord count.toNat needed available)
        return ({ location, reference, id := ⟨id⟩, count := count.toNat } :
          Header dim spacedim)) (0 + 0) := by
    intro location reference id count
    refine takes_available.bind fun available => ?_
    dsimp only
    split
    · exact (takes_error _ 0).bind fun _ => takes_pure _
    · exact takes_pure _
  have whole := (takes_point spacedim).bind fun location => (takes_point dim).bind fun reference =>
    takes_word64.bind fun id => takes_word32.bind fun count => tail location reference id count
  have size : spacedim * Scalar.byteWidth + (dim * Scalar.byteWidth + (8 + (4 + (0 + 0)))) =
      byteWidth dim spacedim := by
    simp only [byteWidth, Scalar.byteWidth, ParticleId.byteWidth, countWidth]
    omega
  exact size ▸ whole

end Header

namespace Record

/-- A record takes at least its header. -/
theorem takes_record (dim spacedim : Nat) :
    Takes (Record.decoder dim spacedim) (Header.byteWidth dim spacedim + 0) :=
  (Header.takes_header dim spacedim).bind fun head => by
    intro input r rest h
    have taken := ((takes_scalars head.count).map (ofHeader head)) input r rest h
    omega

/-- What follows a record is shorter than what the record was read from. -/
theorem length_lt_of_decode {dim spacedim : Nat} {input rest : Bytes} {r : Record dim spacedim}
    (h : (Record.decoder dim spacedim).run input = .ok (r, rest)) : rest.length < input.length := by
  have taken := takes_record dim spacedim input r rest h
  have positive : 12 ≤ Header.byteWidth dim spacedim := by
    simp only [Header.byteWidth, ParticleId.byteWidth, Header.countWidth]
    omega
  omega

end Record

end ParticleStore
