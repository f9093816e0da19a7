/-
ParticleStore.Proofs.Lattice — digits, points and walks.

The coordinates of a lattice's point are the digits of its number. `dim` digits give the number back
modulo `side ^ dim` (`ofDigits_digits`), and no other integers below the side do (`expansion_iff`).
Two numbers therefore have the same digits just if they are congruent (`digits_eq_iff`).

Digit `i` is the same however many digits there are (`getElem?_digits`). This keeps the two points
of a stop together, which are counted out apart and in different dimensions (`isStop_advance`). A
stop is a matter of its number alone, so a walk comes to the same stops whichever of them are left
out on the way (`follows_along`).

Numbers have no bound here. Where they are words of 64 bits, and the coordinates are written over in
place with the quotient carried from one to the next, the point is the same (`fill_origin`).
-/
import Mathlib.Data.Nat.Digits.Lemmas
import ParticleStore.Lattice

namespace ParticleStore

namespace Lattice

variable {ε : Type} {dim spacedim side m n i d : Nat} {ds : List Nat}

/-! ## Digits -/

theorem lt_of_mem_digits (hside : 0 < side) (hd : d ∈ digits dim n side) : d < side := by
  induction dim generalizing n with
  | zero => exact absurd hd List.not_mem_nil
  | succ dim ih =>
    cases List.mem_cons.mp hd with
    | inl hlowest =>
      rw [hlowest]
      exact Nat.mod_lt n hside
    | inr hlater => exact ih hlater

/-- The digits are those of the number modulo `side ^ dim`: what is left of it after the last digit
is given up. -/
theorem ofDigits_digits (dim n side : Nat) :
    Nat.ofDigits side (digits dim n side) = n % side ^ dim := by
  induction dim generalizing n with
  | zero => rw [digits, Nat.ofDigits_nil, Nat.pow_zero, Nat.mod_one]
  | succ dim ih =>
    calc Nat.ofDigits side (digits (dim + 1) n side)
        = n % side + side * Nat.ofDigits side (digits dim (n / side) side) := Nat.ofDigits_cons
      _ = n % side + side * (n / side % side ^ dim) := by rw [ih]
      _ = n % side ^ (dim + 1) := by rw [Nat.pow_succ', Nat.mod_mul]

theorem digits_mod (dim n side : Nat) : digits dim (n % side ^ dim) side = digits dim n side := by
  induction dim generalizing n with
  | zero => rfl
  | succ dim ih =>
    rw [digits, digits, Nat.pow_succ', Nat.mod_mul_right_mod, Nat.mod_mul_right_div_self, ih]

/-- Integers below the side are the digits of the number that they make. -/
theorem digits_ofDigits (hlt : ∀ d ∈ ds, d < side) :
    digits ds.length (Nat.ofDigits side ds) side = ds := by
  induction ds with
  | nil => rfl
  | cons d ds ih =>
    have hd : d < side := hlt d List.mem_cons_self
    have hlater := ih fun d hmem => hlt d (List.mem_cons_of_mem _ hmem)
    rw [List.length_cons, digits, Nat.ofDigits_cons, Nat.add_mul_mod_self_left,
      Nat.mod_eq_of_lt hd, Nat.add_mul_div_left _ _ (Nat.zero_lt_of_lt hd), Nat.div_eq_of_lt hd,
      Nat.zero_add, hlater]

/-- A digit does not depend on how many there are. -/
theorem getElem?_digits (hi : i < dim) (n side : Nat) :
    (digits dim n side)[i]? = some (n / side ^ i % side) := by
  induction dim generalizing n i with
  | zero => exact absurd hi (Nat.not_lt_zero i)
  | succ dim ih =>
    cases i with
    | zero => rw [digits, List.getElem?_cons_zero, Nat.pow_zero, Nat.div_one]
    | succ i =>
      rw [digits, List.getElem?_cons_succ, ih (Nat.lt_of_succ_lt_succ hi), Nat.div_div_eq_div_mul,
        Nat.pow_succ']

/-- The number modulo `side ^ dim` as a sum of powers of the side, each taken less than `side`
times. -/
structure Expansion (dim n side : Nat) (ds : List Nat) : Prop where
  length_eq : ds.length = dim
  lt_side : ∀ d ∈ ds, d < side
  sum_eq : (ds.mapIdx fun i d => d * side ^ i).sum = n % side ^ dim

theorem Expansion.ofDigits_eq (expansion : Expansion dim n side ds) :
    Nat.ofDigits side ds = n % side ^ dim := by
  rw [Nat.ofDigits_eq_sum_mapIdx, expansion.sum_eq]

/-- The digits are an expansion of the number, and the only one. -/
theorem expansion_iff (hside : 0 < side) : Expansion dim n side ds ↔ ds = digits dim n side := by
  constructor
  · intro expansion
    calc ds = digits ds.length (Nat.ofDigits side ds) side :=
          (digits_ofDigits expansion.lt_side).symm
      _ = digits dim (n % side ^ dim) side := by rw [expansion.length_eq, expansion.ofDigits_eq]
      _ = digits dim n side := digits_mod dim n side
  · rintro rfl
    refine ⟨length_digits dim n side, fun _ => lt_of_mem_digits hside, ?_⟩
    rw [← Nat.ofDigits_eq_sum_mapIdx, ofDigits_digits]

/-- The lattice begins again after `side ^ dim` points. -/
theorem digits_eq_iff (dim m n side : Nat) :
    digits dim m side = digits dim n side ↔ m ≡ n [MOD side ^ dim] := by
  constructor
  · intro hsame
    rw [Nat.ModEq, ← ofDigits_digits, hsame, ofDigits_digits]
  · intro hcongruent
    rw [← digits_mod, hcongruent, digits_mod]

/-! ## Points -/

theorem point_eq_site (hside : 0 < side) (dim n : Nat) :
    (point dim n side : Attempt ε (Point dim)) = .ok (site dim n side) :=
  if_neg fun hzero => Nat.ne_of_gt hside hzero.1

theorem getElem?_site (hi : i < dim) (n side : Nat) :
    (site dim n side).coords[i]? = some (Scalar.ofNat (n / side ^ i % side)) := by
  rw [site, List.getElem?_map, getElem?_digits hi, Option.map_some]

/-- Coordinates written over in place: each by what a division of `rest` by the side leaves, and the
quotient is carried to the next. -/
def fill (side : UInt64) : List Scalar → UInt64 → Attempt ε (List Scalar)
  | [], _ => .ok []
  | _ :: coords, rest => do
    Attempt.require (side ≠ 0) .zeroDivisor
    let later ← fill side coords (rest / side)
    return Scalar.ofNat (rest % side).toNat :: later

theorem fill_of_ne_zero {s : UInt64} (hs : s ≠ 0) (coords : List Scalar) (rest : UInt64) :
    (fill s coords rest : Attempt ε (List Scalar)) =
      .ok ((digits coords.length rest.toNat s.toNat).map Scalar.ofNat) := by
  induction coords generalizing rest with
  | nil => rfl
  | cons c coords ih =>
    rw [fill, Attempt.require, if_pos hs, ih, List.length_cons, digits, List.map_cons,
      UInt64.toNat_mod, UInt64.toNat_div]
    rfl

/-- A point's coordinates are what is filled into those of the origin. -/
theorem fill_origin (dim : Nat) (n s : UInt64) :
    (fill s (Point.origin dim).coords n : Attempt ε (List Scalar)) =
      Point.coords <$> point dim n.toNat s.toNat := by
  have hlength := (Point.origin dim).length_coords
  by_cases hs : s = 0
  · cases dim with
    | zero =>
      rw [List.length_eq_zero_iff.mp hlength, fill, point, if_neg (by simp)]
      rfl
    | succ dim =>
      rw [hs]
      rfl
  · have hpos : 0 < s.toNat := Nat.pos_of_ne_zero fun hzero => hs (UInt64.toNat_inj.mp hzero)
    rw [fill_of_ne_zero hs, hlength, point_eq_site hpos]
    rfl

/-! ## Walks -/

/-- Stop `j` of a walk over a lattice of the given side. -/
structure IsStop (side j : Nat) (stop : Stop dim spacedim) : Prop where
  number_eq : stop.number = j
  location_eq : ∀ ε : Type,
    (point spacedim j side : Attempt ε (Point spacedim)) = .ok stop.location
  /-- The coordinates of the reference are those of the location, divided by the side. -/
  reference_eq : ∀ i < dim, ∃ c, stop.location.coords[i]? = some c ∧
    stop.reference.coords[i]? = some (c / Scalar.ofNat side)

/-- A part of a walk: so many stops are left out, or taken. -/
inductive Stretch where
  | skip (count : Nat)
  | take (count : Nat)

/-- The numbers of the stops that are taken on a walk from stop `first` on. -/
def taken : Nat → List Stretch → List Nat
  | _, [] => []
  | first, .skip count :: stretches => taken (first + count) stretches
  | first, .take count :: stretches =>
    List.range' first count ++ taken (first + count) stretches

/-- How many stops there are on a walk, taken or not. -/
def Stretch.length : Stretch → Nat
  | skip count => count
  | take count => count

namespace Walk

/-- The stops that are taken on a walk, and the walk after it. -/
def along (dim spacedim : Nat) : List Stretch → Walk → List (Stop dim spacedim) × Walk
  | [], w => ([], w)
  | .skip count :: stretches, w => along dim spacedim stretches (w.skip count)
  | .take count :: stretches, w =>
    let (stops, w) := w.stops dim spacedim count
    let (later, w) := along dim spacedim stretches w
    (stops ++ later, w)

theorem skip_eq (side first count : Nat) : skip count ⟨side, first⟩ = ⟨side, first + count⟩ := by
  induction count generalizing first with
  | zero => rfl
  | succ count ih => rw [skip, ih, Nat.add_assoc, Nat.add_comm 1 count]

/-- To leave stops out is to make them and give them up. -/
theorem snd_stops (dim spacedim count : Nat) (w : Walk) :
    (w.stops dim spacedim count).2 = w.skip count := by
  induction count generalizing w with
  | zero => rfl
  | succ count ih => exact ih _

/-- Both points of a stop have the digits of its number, as far as they have coordinates. -/
theorem isStop_advance (hside : 0 < side) (hdim : dim ≤ spacedim) (j : Nat) :
    IsStop side j (advance dim spacedim ⟨side, j⟩).1 where
  number_eq := rfl
  location_eq _ := point_eq_site hside spacedim j
  reference_eq i hi := by
    refine ⟨_, getElem?_site (Nat.lt_of_lt_of_le hi hdim) .., ?_⟩
    rw [advance, Point.map, List.getElem?_map, getElem?_site hi, Option.map_some]

theorem isStop_stops (hside : 0 < side) (hdim : dim ≤ spacedim) (first count : Nat) :
    List.Forall₂ (IsStop side) (List.range' first count)
      (stops dim spacedim count ⟨side, first⟩).1 := by
  induction count generalizing first with
  | zero => exact .nil
  | succ count ih => exact .cons (isStop_advance hside hdim first) (ih (first + 1))

/-- What a walk comes to from stop `first` on. -/
structure Follows (side first : Nat) (stretches : List Stretch)
    (outcome : List (Stop dim spacedim) × Walk) : Prop where
  isStop : List.Forall₂ (IsStop side) (taken first stretches) outcome.1
  walk_eq : outcome.2 = ⟨side, first + (stretches.map Stretch.length).sum⟩

theorem follows_along (hside : 0 < side) (hdim : dim ≤ spacedim) (first : Nat)
    (stretches : List Stretch) :
    Follows side first stretches (along dim spacedim stretches ⟨side, first⟩) := by
  induction stretches generalizing first with
  | nil => exact ⟨.nil, rfl⟩
  | cons stretch stretches ih =>
    -- either way the rest of the walk starts `stretch.length` stops on
    obtain ⟨hstops, hwalk⟩ := ih (first + stretch.length)
    rw [Nat.add_assoc, ← List.sum_cons, ← List.map_cons] at hwalk
    cases stretch with
    | skip count =>
      rw [along, skip_eq]
      exact ⟨hstops, hwalk⟩
    | take count =>
      have hnow := isStop_stops hside hdim first count
      have hafter := (snd_stops dim spacedim count ⟨side, first⟩).trans (skip_eq side first count)
      simp only [along, hafter]
      exact ⟨List.rel_append hnow hstops, hwalk⟩

end Walk

/-! ## Lattices -/

/-- What the points of a lattice of the given side are, and the stops of walks over it. -/
structure Regular (side : Nat) : Prop where
  /-- Each number has a point, and its coordinates are the scalars of an expansion. -/
  exists_point : ∀ (ε : Type) (dim n : Nat), ∃ p ds,
    (point dim n side : Attempt ε (Point dim)) = .ok p ∧ p.coords = ds.map Scalar.ofNat ∧
      Expansion dim n side ds
  /-- It is the only expansion that there is. -/
  expansion_iff : ∀ dim n ds, Expansion dim n side ds ↔ ds = digits dim n side
  digits_eq_iff : ∀ dim m n, digits dim m side = digits dim n side ↔ m ≡ n [MOD side ^ dim]
  /-- Words of 64 bits, filled in place, come to the same point. -/
  fill_origin : ∀ (ε : Type) (dim : Nat) (n s : UInt64), s.toNat = side →
    (fill s (Point.origin dim).coords n : Attempt ε (List Scalar)) =
      Point.coords <$> point dim n.toNat side
  /-- There is a walk, and it comes to the same stops whichever of them are taken. -/
  exists_walk : ∀ (ε : Type) (dim spacedim : Nat), dim ≤ spacedim → ∃ w,
    (Walk.start side : Attempt ε Walk) = .ok w ∧
      ∀ stretches, Walk.Follows side 0 stretches (w.along dim spacedim stretches)
  skip_eq : ∀ (dim spacedim count : Nat) (w : Walk),
    w.skip count = (w.stops dim spacedim count).2

/-- **Points have the digits of their numbers, and walks come to the points in turn.** On every
lattice with an extent, in all dimensions, the coordinates of a point are the digits of its number,
and stop `j` of a walk is the point `j` with the same point scaled into the unit cube. -/
theorem regular_of_pos (hside : 0 < side) : Regular side where
  exists_point _ dim n := ⟨site dim n side, digits dim n side, point_eq_site hside dim n, rfl,
    (expansion_iff hside).mpr rfl⟩
  expansion_iff _ _ _ := expansion_iff hside
  digits_eq_iff dim m n := digits_eq_iff dim m n side
  fill_origin _ dim n s hs := by rw [← hs, fill_origin]
  exists_walk _ _ _ hdim := ⟨⟨side, 0⟩, if_neg (Nat.ne_of_gt hside),
    Walk.follows_along hside hdim 0⟩
  skip_eq dim spacedim count w := (Walk.snd_stops dim spacedim count w).symm

/-- A square of side 2 has four points: the point 14 is the point 6 and not the point 5. A walk over
it goes on beyond them, here to stop 6, with three of its stops taken. -/
theorem regular_of_pos_two :
    let stretches : List Stretch := [.skip 2, .take 1, .skip 2, .take 2]
    0 < 2 ∧ Expansion 2 14 2 [0, 1] ∧ digits 2 14 2 = digits 2 6 2 ∧
      digits 2 14 2 ≠ digits 2 5 2 ∧ 1 ≤ 2 ∧
      ∃ w, (Walk.start 2 : Attempt Empty Walk) = .ok w ∧
        List.Forall₂ (IsStop 2) [2, 5, 6] (w.along 1 2 stretches).1 := by
  intro stretches
  have regular : Regular 2 := regular_of_pos (by decide)
  obtain ⟨w, hstart, follows⟩ := regular.exists_walk Empty 1 2 (by decide)
  exact ⟨by decide, (regular.expansion_iff 2 14 _).mpr rfl,
    (regular.digits_eq_iff 2 14 6).mpr rfl, mt (regular.digits_eq_iff 2 14 5).mp (by decide),
    by decide, w, hstart, (follows stretches).isStop⟩

end Lattice

end ParticleStore
