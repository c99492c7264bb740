import LuaHost.Proofs.Numeric.Rational
import Mathlib.Data.EReal.Basic

/-!
# The numbers that doubles denote

A double denotes a real number or one of the two infinities, unless it is a `NaN`.  What it denotes
grows with its place among the doubles, so two doubles denote one number only if they have the same
bits or are both zero.  The key of a double takes one form for each number.
-/

namespace LuaHost

namespace Double

/-- The number that a double denotes, read off its sign, exponent and fraction bits.  With all exponent
bits set, it is an infinity if the fraction is zero, and there is none otherwise. -/
noncomputable def number? (x : Double) : Option EReal :=
  if x.magnitude.toNat / 2 ^ 52 = 2047 then
    if x.magnitude.toNat % 2 ^ 52 = 0 then some (if x.negative then ⊥ else ⊤) else none
  else some ((x.value : ℝ) : EReal)

/-!
# Classes by exponent and fraction
-/

theorem number?_of_isFinite {x : Double} (h : x.isFinite = true) :
    x.number? = some ((x.value : ℝ) : EReal) := by
  rw [isFinite_iff, toNat_infinityBits] at h
  unfold number?
  rw [if_neg (by omega)]

theorem number?_of_isInfinite {x : Double} (h : x.isInfinite = true) :
    x.number? = some (if x.negative then ⊥ else ⊤) := by
  rw [isInfinite_iff, toNat_infinityBits] at h
  unfold number?
  rw [if_pos (by omega), if_pos (by omega)]

/-- The doubles that denote no number are the `NaN`s. -/
theorem number?_eq_none {x : Double} : x.number? = none ↔ x.isNaN = true := by
  have hlt := magnitude_lt x
  rw [isNaN_iff, toNat_infinityBits]
  unfold number?
  by_cases hexponent : x.magnitude.toNat / 2 ^ 52 = 2047
  · rw [if_pos hexponent]
    by_cases hfraction : x.magnitude.toNat % 2 ^ 52 = 0
    · rw [if_pos hfraction]
      exact ⟨nofun, fun h => by omega⟩
    · rw [if_neg hfraction]
      exact ⟨fun _ => by omega, fun _ => rfl⟩
  · rw [if_neg hexponent]
    exact ⟨nofun, fun h => by omega⟩

/-!
# Numbers in the order of the doubles
-/

/-- The number at a place among the doubles, with the infinities at both ends. -/
noncomputable def numberAtRank (i : Int) : EReal :=
  if i ≤ -infinityBits.toNat then ⊥
  else if infinityBits.toNat ≤ i then ⊤
  else ((atRank i : ℝ) : EReal)

theorem numberAtRank_lt {i j : Int} (hi : i.natAbs ≤ infinityBits.toNat)
    (hj : j.natAbs ≤ infinityBits.toNat) (h : i < j) : numberAtRank i < numberAtRank j := by
  unfold numberAtRank
  -- the lower place is not the last one, and the higher not the first
  rw [if_neg (show ¬(infinityBits.toNat : Int) ≤ i by omega),
    if_neg (show ¬j ≤ -(infinityBits.toNat : Int) by omega)]
  by_cases hbottom : i ≤ -infinityBits.toNat
  · rw [if_pos hbottom]
    by_cases htop : infinityBits.toNat ≤ j
    · rw [if_pos htop]
      exact bot_lt_top
    · rw [if_neg htop]
      exact EReal.bot_lt_coe _
  · rw [if_neg hbottom]
    by_cases htop : infinityBits.toNat ≤ j
    · rw [if_pos htop]
      exact EReal.coe_lt_top _
    · rw [if_neg htop]
      exact EReal.coe_lt_coe_iff.mpr (Rat.cast_lt.mpr (atRank_lt h))

theorem numberAtRank_inj {i j : Int} (hi : i.natAbs ≤ infinityBits.toNat)
    (hj : j.natAbs ≤ infinityBits.toNat) : numberAtRank i = numberAtRank j ↔ i = j := by
  constructor
  · intro heq
    rcases Int.lt_trichotomy i j with hlt | hsame | hlt
    · exact absurd heq (numberAtRank_lt hi hj hlt).ne
    · exact hsame
    · exact absurd heq (numberAtRank_lt hj hi hlt).ne'
  · rintro rfl
    rfl

theorem natAbs_rank (x : Double) : x.rank.toInt.natAbs = x.magnitude.toNat := by
  rw [toInt_rank, natAbs_signed]

section

variable {x y : Double} (hx : x.isNaN = false) (hy : y.isNaN = false)

include hx

theorem natAbs_rank_le : x.rank.toInt.natAbs ≤ infinityBits.toNat := by
  rw [natAbs_rank, ← Nat.not_lt, ← isNaN_iff, hx]
  exact Bool.false_ne_true

theorem number?_eq : x.number? = some (numberAtRank x.rank.toInt) := by
  have habs := natAbs_rank x
  have hle := natAbs_rank_le hx
  unfold numberAtRank
  by_cases hlt : x.magnitude.toNat < infinityBits.toNat
  · rw [number?_of_isFinite (isFinite_iff.mpr hlt), if_neg (by omega), if_neg (by omega),
      value_eq_atRank]
  · have hinfinite : x.magnitude.toNat = infinityBits.toNat := by omega
    rw [number?_of_isInfinite (isInfinite_iff.mpr hinfinite), toInt_rank, hinfinite]
    cases x.negative with
    | false => rfl
    | true => rfl

include hy

/-- Two doubles denote one number when they are the same or both zero. -/
theorem number?_eq_iff :
    x.number? = y.number? ↔ x = y ∨ (x.isZero = true ∧ y.isZero = true) := by
  rw [number?_eq hx, number?_eq hy, Option.some.injEq,
    numberAtRank_inj (natAbs_rank_le hx) (natAbs_rank_le hy), Int64.toInt_inj, rank_eq_iff]

end

end Double

namespace FloatKey

/-!
# The keys of numbers
-/

variable {x y : Double} {a b : FloatKey}

theorem isNaN_of_ofDouble (h : ofDouble x = some a) : x.isNaN = false := by
  rw [← Bool.not_eq_true, ← ofDouble_eq_none, h]
  exact nofun

theorem number?_value (h : ofDouble x = some a) : a.value.number? = x.number? := by
  have hx := isNaN_of_ofDouble h
  rw [ofDouble_of_number hx] at h
  cases h
  cases hzero : x.isZero with
  | true => exact (Double.number?_eq_iff Double.isNaN_zero hx).mpr (.inr ⟨rfl, hzero⟩)
  | false => rfl

/-- Two keys are equal when their doubles denote one number. -/
theorem eq_iff_number? (hx : ofDouble x = some a) (hy : ofDouble y = some b) :
    a = b ↔ x.number? = y.number? := by
  have hxn := isNaN_of_ofDouble hx
  have hyn := isNaN_of_ofDouble hy
  rw [Double.number?_eq_iff hxn hyn]
  constructor
  · rintro rfl
    exact (Double.eq_iff.mp (ofDouble_eq_iff.mp ⟨a, hx, hy⟩)).2.2
  · intro hsame
    rcases ofDouble_eq_iff.mpr (Double.eq_iff.mpr ⟨hxn, hyn, hsame⟩) with ⟨k, hkx, hky⟩
    rw [hx] at hkx
    rw [hy] at hky
    exact Option.some.inj (hkx.trans hky.symm)

/-- Keys that every hasher takes for one are equal: one hasher keeps the bits that it is given. -/
theorem hash_eq_iff :
    (forall (σ : Type) (write : σ → UInt64 → σ) (state : σ),
      a.hash write state = b.hash write state) ↔ a = b := by
  constructor
  · intro h
    have hbits : a.value.bits = b.value.bits := h UInt64 (fun _ bits => bits) 0
    rcases a with ⟨⟨p⟩⟩
    rcases b with ⟨⟨q⟩⟩
    rw [show p = q from hbits]
  · rintro rfl σ write state
    rfl

/-- Every double but a `NaN` denotes a real number or an infinity and has a key that denotes the same.
Two such keys are equal, and the same for every hasher, exactly if the doubles denote one number. -/
theorem numbers_keyed (x y : Double) :
    (ofDouble x = none ↔ x.isNaN = true) ∧ (x.isNaN = true ↔ x.number? = none) ∧
    (x.isNaN = false -> y.isNaN = false ->
      exists a b r s, ofDouble x = some a ∧ ofDouble y = some b ∧
        x.number? = some r ∧ y.number? = some s ∧ a.value.number? = some r ∧
        ((a == b) = true ↔ r = s) ∧
        ((forall (σ : Type) (write : σ → UInt64 → σ) (state : σ),
          a.hash write state = b.hash write state) ↔ r = s)) := by
  refine ⟨ofDouble_eq_none, Double.number?_eq_none.symm, ?_⟩
  intro hx hy
  have ha := ofDouble_of_number hx
  have hb := ofDouble_of_number hy
  have hr := Double.number?_eq hx
  have hs := Double.number?_eq hy
  have heq := eq_iff_number? ha hb
  rw [hr, hs, Option.some.injEq] at heq
  refine ⟨_, _, _, _, ha, hb, hr, hs, (number?_value ha).trans hr, ?_, ?_⟩
  · rw [beq_iff_eq, heq]
  · rw [hash_eq_iff, heq]

/-- The two zeros are one number, and have one key. -/
theorem numbers_keyed_zeros :
    exists a b, ofDouble ⟨0x8000000000000000⟩ = some a ∧ ofDouble Double.zero = some b ∧
      (a == b) = true ∧
      forall (σ : Type) (write : σ → UInt64 → σ) (state : σ),
        a.hash write state = b.hash write state := by
  rcases (numbers_keyed ⟨0x8000000000000000⟩ Double.zero).2.2 rfl rfl with
    ⟨a, b, r, s, ha, hb, hr, hs, _, hequal, hhash⟩
  have hnumber := (Double.number?_eq_iff (x := ⟨0x8000000000000000⟩) rfl Double.isNaN_zero).mpr
    (.inr ⟨rfl, rfl⟩)
  rw [hr, hs, Option.some.injEq] at hnumber
  exact ⟨a, b, ha, hb, hequal.mpr hnumber, hhash.mpr hnumber⟩

end FloatKey

end LuaHost
