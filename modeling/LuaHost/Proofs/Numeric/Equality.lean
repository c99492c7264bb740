import LuaHost.Data.Key
import LuaHost.Proofs.Numeric.Exactness

/-!
# Doubles that are one key

Two doubles are one number when they have the same bits or are both zero.  A
`NaN` is no number.  The key of a double keeps one zero for both, so it has the
same bits exactly for doubles that are one number.
-/

namespace LuaHost

namespace Double

/-!
# Equal numbers
-/

theorem toInt_toInt64 {m : UInt64} (h : m.toNat < 2 ^ 63) : m.toInt64.toInt = m.toNat :=
  BitVec.toInt_eq_toNat_of_lt (x := m.toBitVec) (show 2 * m.toNat < 2 ^ 64 by omega)

theorem toInt_rank (x : Double) : x.rank.toInt = signed x.negative x.magnitude.toNat := by
  have hlt := magnitude_lt x
  have hmag := toInt_toInt64 hlt
  unfold rank signed
  cases x.negative with
  | false => exact hmag
  | true =>
      simp only [if_true]
      rw [Int64.toInt_neg, hmag]
      exact Int.bmod_eq_of_le (by omega) (by omega)

theorem rank_eq_iff {x y : Double} :
    x.rank = y.rank ↔ x = y ∨ (x.isZero = true ∧ y.isZero = true) := by
  have hparts : x.negative = y.negative -> x.magnitude.toNat = y.magnitude.toNat -> x = y := by
    intro hneg hmag
    rw [eq_of_parts x, eq_of_parts y, hneg, UInt64.toNat_inj.mp hmag]
  rw [← Int64.toInt_inj, toInt_rank, toInt_rank, isZero_iff_magnitude, isZero_iff_magnitude]
  constructor
  · intro h
    unfold signed at h
    cases hx : x.negative <;> cases hy : y.negative <;>
      simp only [hx, hy, Bool.false_eq_true, if_true, if_false] at h
    · exact Or.inl (hparts (hx.trans hy.symm) (by omega))
    · exact Or.inr (by omega)
    · exact Or.inr (by omega)
    · exact Or.inl (hparts (hx.trans hy.symm) (by omega))
  · rintro (rfl | ⟨hx, hy⟩)
    · rfl
    · rw [hx, hy]
      unfold signed
      cases x.negative <;> cases y.negative <;> rfl

theorem eq_iff {x y : Double} :
    x.eq y = true ↔
      x.isNaN = false ∧ y.isNaN = false ∧ (x = y ∨ (x.isZero = true ∧ y.isZero = true)) := by
  unfold eq
  rw [Bool.and_eq_true, Bool.and_eq_true, Bool.not_eq_true', Bool.not_eq_true', beq_iff_eq,
    rank_eq_iff, and_assoc]

theorem isNaN_zero : zero.isNaN = false := rfl

theorem magnitude_ofQuotient_le (neg : Bool) (num den : Nat) :
    exists m : UInt64, m.toNat ≤ infinityBits.toNat ∧
      ofQuotient neg num den = ⟨signBit neg ||| m⟩ := by
  unfold ofQuotient
  generalize roundingExponent num den = q
  by_cases hnum : (num == 0) = true
  · exact ⟨0, Nat.zero_le _, by rw [if_pos hnum, UInt64.or_zero]; rfl⟩
  · simp only [if_neg hnum]
    generalize (q + 1074).toNat <<< 52 + roundQuotient (scaledQuotient num den q).1
      (scaledQuotient num den q).2 = mag
    by_cases hq : q > 971
    · exact ⟨infinityBits, Nat.le_refl _, by rw [if_pos hq]; rfl⟩
    · by_cases hlt : mag < infinityBits.toNat
      · refine ⟨mag.toUInt64, ?_, by rw [if_neg hq, if_pos hlt]; rfl⟩
        have hself : mag.toUInt64.toNat = mag :=
          UInt64.toNat_ofNat_of_lt' (Nat.lt_trans hlt (by decide))
        exact Nat.le_trans (Nat.le_of_eq hself) (Nat.le_of_lt hlt)
      · exact ⟨infinityBits, Nat.le_refl _, by rw [if_neg hq, if_neg hlt]; rfl⟩

theorem isNaN_ofInt64 (i : Int64) : (ofInt64 i).isNaN = false := by
  rcases magnitude_ofQuotient_le (decide (i.toInt < 0)) i.toInt.natAbs 1 with ⟨m, hm, heq⟩
  have hlt : m.toNat < 2 ^ 63 := Nat.lt_of_le_of_lt hm (by decide)
  unfold ofInt64 ofInt
  rw [heq, ← Bool.not_eq_true, isNaN_iff, magnitude_ofParts _ hlt]
  omega

/-- Rounding takes no integer to the other side of zero. -/
theorem toInt_ofInt64_le {i j : Int64} (hi : i.toInt ≤ 0) (h : (ofInt64 i).toInt64? = some j) :
    j.toInt ≤ 0 := by
  by_cases hzero : i = 0
  · subst hzero
    rw [toInt64?_zero] at h
    cases h
    decide
  · have hneg : i.toInt < 0 := by
      have hne : i.toInt ≠ 0 := fun heq => hzero (Int64.toInt_inj.mp heq)
      omega
    rcases magnitude_ofQuotient_le (decide (i.toInt < 0)) i.toInt.natAbs 1 with ⟨m, hm, heq⟩
    have hlt : m.toNat < 2 ^ 63 := Nat.lt_of_le_of_lt hm (by decide)
    have hsign : (ofInt64 i).negative = true := by
      unfold ofInt64 ofInt
      rw [heq, negative_ofParts _ hlt]
      exact decide_eq_true hneg
    rcases shifted_of_toInt? (toInt?_of_toInt64? h).1 with ⟨n, hn, _⟩
    rw [hn, hsign]
    show -(n : Int) ≤ 0
    omega

end Double

namespace FloatKey

/-!
# The key of a double
-/

theorem ofDouble_eq_none {x : Double} : ofDouble x = none ↔ x.isNaN = true := by
  unfold ofDouble
  cases x.isNaN <;> simp

theorem ofDouble_of_number {x : Double} (h : x.isNaN = false) :
    ofDouble x = some ⟨if x.isZero then Double.zero else x⟩ := by
  unfold ofDouble
  rw [h]
  rfl

theorem normal_of_ofDouble {x : Double} {k : FloatKey} (h : ofDouble x = some k) :
    k.value.isNaN = false ∧ (k.value.isZero = true -> k.value = Double.zero) := by
  cases hnan : x.isNaN with
  | true =>
      rw [ofDouble_eq_none.mpr hnan] at h
      cases h
  | false =>
      rw [ofDouble_of_number hnan] at h
      cases h
      cases hzero : x.isZero with
      | true => exact ⟨Double.isNaN_zero, fun _ => rfl⟩
      | false =>
          refine ⟨hnan, fun hz => ?_⟩
          have hz : x.isZero = true := hz
          rw [hzero] at hz
          cases hz

/-- Two doubles have one key exactly when they are one number. -/
theorem ofDouble_eq_iff {x y : Double} :
    (exists k, ofDouble x = some k ∧ ofDouble y = some k) ↔ x.eq y = true := by
  rw [Double.eq_iff]
  constructor
  · rintro ⟨k, hx, hy⟩
    have hxn : x.isNaN = false := by
      by_contra hne
      rw [ofDouble_eq_none.mpr (Bool.of_not_eq_false hne)] at hx
      cases hx
    have hyn : y.isNaN = false := by
      by_contra hne
      rw [ofDouble_eq_none.mpr (Bool.of_not_eq_false hne)] at hy
      cases hy
    refine ⟨hxn, hyn, ?_⟩
    rw [ofDouble_of_number hxn] at hx
    rw [ofDouble_of_number hyn, ← hx, Option.some.injEq, FloatKey.mk.injEq] at hy
    cases hxz : x.isZero with
    | true =>
        cases hyz : y.isZero with
        | true => exact Or.inr ⟨rfl, rfl⟩
        | false =>
            -- the one zero is no other number
            rw [hxz, hyz, if_pos rfl, if_neg Bool.false_ne_true] at hy
            rw [hy] at hyz
            cases hyz
    | false =>
        rw [hxz, if_neg Bool.false_ne_true] at hy
        cases hyz : y.isZero with
        | true =>
            rw [hyz, if_pos rfl] at hy
            rw [← hy] at hxz
            cases hxz
        | false =>
            rw [hyz, if_neg Bool.false_ne_true] at hy
            exact Or.inl hy.symm
  · rintro ⟨hxn, hyn, rfl | ⟨hxz, hyz⟩⟩
    · exact ⟨_, ofDouble_of_number hxn, ofDouble_of_number hxn⟩
    · refine ⟨⟨Double.zero⟩, ?_, ?_⟩
      · rw [ofDouble_of_number hxn, hxz, if_pos rfl]
      · rw [ofDouble_of_number hyn, hyz, if_pos rfl]

end FloatKey

end LuaHost
