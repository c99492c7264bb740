import LuaHost.Proofs.Numeric.Equality

/-!
# Integers that are rounded

An integer of more than 53 bits goes to the nearest double, which is an integer again.  Rounding
takes no integer across `-2 ^ 53`, so the integers above that bound and their doubles stay apart from
those at or below it.
-/

namespace LuaHost

namespace Double

theorem le_roundQuotient {n d c : Nat} (h : c ≤ n / d) : c ≤ roundQuotient n d := by
  unfold roundQuotient
  dsimp only
  split <;> omega

/-- Rounding does not go beyond a natural that the quotient does not exceed. -/
theorem roundQuotient_le {n d c : Nat} (hd : 0 < d) (h : n ≤ c * d) : roundQuotient n d ≤ c := by
  have hle : n / d ≤ c := Nat.div_le_of_le_mul (Nat.mul_comm c d ▸ h)
  by_cases hlt : n / d < c
  · unfold roundQuotient
    dsimp only
    split <;> omega
  · have heq : n = c * d := by
      refine Nat.le_antisymm h ?_
      rw [show c = n / d by omega]
      exact Nat.div_mul_le_self n d
    rw [heq, roundQuotient_mul c hd]

/-- A natural of more than 53 bits, at the place of its last significant bit. -/
theorem quotient_bounds {n q : Nat} (hn : n ≠ 0) (hq : n.log2 = q + 52) :
    2 ^ 52 ≤ n / 2 ^ q ∧ n / 2 ^ q < 2 ^ 53 := by
  have hlow := Nat.log2_self_le hn
  have hhigh : n < 2 ^ (n.log2 + 1) := Nat.lt_log2_self
  rw [hq] at hlow hhigh
  have hpos : 0 < 2 ^ q := Nat.two_pow_pos q
  constructor
  · rw [Nat.le_div_iff_mul_le hpos, ← Nat.pow_add, Nat.add_comm]
    exact hlow
  · rw [Nat.div_lt_iff_lt_mul hpos, ← Nat.pow_add, show 53 + q = q + 52 + 1 by omega]
    exact hhigh

/-- The magnitude of a rounded natural: its exponent, and its significand with the leading bit, which
may carry. -/
theorem ofQuotient_large (neg : Bool) {n q : Nat} (hn : n ≠ 0) (hq : n.log2 = q + 52)
    (hsmall : q ≤ 11) (hle : n ≤ 2 ^ 63) :
    exists m, 2 ^ 52 ≤ m ∧ m ≤ 2 ^ 53 ∧ m ≤ 2 ^ (63 - q) ∧
      ofQuotient neg n 1 = ⟨signBit neg ||| ((q + 1074) * 2 ^ 52 + m).toUInt64⟩ := by
  rcases quotient_bounds hn hq with ⟨hlo, hhi⟩
  have hpos : 0 < 2 ^ q := Nat.two_pow_pos q
  have hlow := le_roundQuotient hlo
  have hhigh : roundQuotient n (2 ^ q) ≤ 2 ^ 53 :=
    roundQuotient_le hpos (Nat.le_of_lt ((Nat.div_lt_iff_lt_mul hpos).mp hhi))
  have hmost : roundQuotient n (2 ^ q) ≤ 2 ^ (63 - q) := by
    refine roundQuotient_le hpos ?_
    rw [← Nat.pow_add, show 63 - q + q = 63 by omega]
    exact hle
  refine ⟨roundQuotient n (2 ^ q), hlow, hhigh, hmost, ?_⟩
  have hexponent : roundingExponent n 1 = (q : Int) := by
    rw [roundingExponent_one hn]
    omega
  have hscaled : scaledQuotient n 1 (q : Int) = (n, 2 ^ q) := by
    show (n, 1 <<< q) = _
    rw [Nat.one_shiftLeft]
  unfold ofQuotient
  rw [if_neg (by rw [beq_iff_eq]; exact hn)]
  simp only [hexponent, hscaled]
  have hmag : ((q : Int) + 1074).toNat <<< 52 + roundQuotient n (2 ^ q) =
      (q + 1074) * 2 ^ 52 + roundQuotient n (2 ^ q) := by
    rw [Nat.shiftLeft_eq]
    congr 2
  have hfinite : (q + 1074) * 2 ^ 52 + roundQuotient n (2 ^ q) < infinityBits.toNat := by
    show _ < 9218868437227405312
    omega
  rw [if_neg (by omega), hmag, if_pos hfinite]
  rfl

theorem toInt?_large {x : Double} {q m : Nat} (hmag : x.magnitude.toNat = (q + 1074) * 2 ^ 52 + m)
    (hlow : 2 ^ 52 ≤ m) (hhigh : m ≤ 2 ^ 53) (hsmall : q ≤ 11) :
    x.toInt? = some (signed x.negative (m * 2 ^ q)) := by
  have hfinite : x.isFinite = true := by
    rw [isFinite_iff, toNat_infinityBits, hmag]
    omega
  rw [toInt?_eq hfinite, significand_eq, exponent_eq, hmag, if_neg (by omega), if_neg (by omega)]
  by_cases hcarry : m < 2 ^ 53
  · rw [show (((q + 1074) * 2 ^ 52 + m) / 2 ^ 52 : Nat) = q + 1075 by omega,
      show ((q + 1074) * 2 ^ 52 + m) % 2 ^ 52 + 2 ^ 52 = m by omega,
      show ((q + 1075 : Nat) : Int) - 1075 = (q : Int) by omega]
    rfl
  · have hm : m = 2 ^ 53 := by omega
    rw [show (((q + 1074) * 2 ^ 52 + m) / 2 ^ 52 : Nat) = q + 1076 by omega,
      show ((q + 1074) * 2 ^ 52 + m) % 2 ^ 52 + 2 ^ 52 = 2 ^ 52 by omega,
      show ((q + 1076 : Nat) : Int) - 1075 = ((q + 1 : Nat) : Int) by omega, hm,
      show 2 ^ 53 * 2 ^ q = 2 ^ 52 * 2 ^ (q + 1) by ring]
    rfl

/-- An integer at or below `-2 ^ 53` is rounded to one of those. -/
theorem exists_rounded {i : Int64} (h : i.toInt ≤ -(2 ^ 53)) :
    exists j, (ofInt64 i).toInt64? = some j ∧ j.toInt ≤ -(2 ^ 53) := by
  have hleast := Int64.le_toInt i
  generalize hn : i.toInt.natAbs = n
  have hne : n ≠ 0 := by omega
  have hlow : 53 ≤ n.log2 := (Nat.le_log2 hne).mpr (by omega)
  have hhigh : n.log2 < 64 := (Nat.log2_lt hne).mpr (by omega)
  rcases Nat.exists_eq_add_of_le' (show 52 ≤ n.log2 by omega) with ⟨q, hq⟩
  rcases ofQuotient_large true hne hq (by omega) (by omega) with ⟨m, hm, hm', hmost, hx⟩
  have hofInt : ofInt64 i = ⟨signBit true ||| ((q + 1074) * 2 ^ 52 + m).toUInt64⟩ := by
    unfold ofInt64 ofInt
    rw [hn, decide_eq_true (show i.toInt < 0 by omega)]
    exact hx
  generalize hM : (q + 1074) * 2 ^ 52 + m = M at hofInt
  have hsmall : M < 0x43f0000000000000 := by
    by_cases hlast : q = 11
    · rw [hlast] at hmost hM
      omega
    · omega
  have hself : M.toUInt64.toNat = M :=
    UInt64.toNat_ofNat_of_lt' (Nat.lt_trans hsmall (by decide))
  have hmag : (ofInt64 i).magnitude.toNat = M := by
    rw [hofInt, magnitude_ofParts true (by omega), hself]
  have hnegative : (ofInt64 i).negative = true := by
    rw [hofInt, negative_ofParts true (by omega)]
  have hint := toInt?_large (hmag.trans hM.symm) hm hm' (by omega)
  rw [hnegative] at hint
  -- the rounded natural is between `2 ^ 53` and `2 ^ 63`, as the natural itself is
  have hlo : 2 ^ 53 ≤ m * 2 ^ q := by
    calc 2 ^ 53 = 2 ^ 52 * 2 ^ 1 := by norm_num
      _ ≤ m * 2 ^ q := Nat.mul_le_mul hm (Nat.pow_le_pow_right (by omega) (by omega))
  have hhi : m * 2 ^ q ≤ 2 ^ 63 := by
    calc m * 2 ^ q ≤ 2 ^ (63 - q) * 2 ^ q := Nat.mul_le_mul_right _ hmost
      _ = 2 ^ 63 := by rw [← Nat.pow_add, show 63 - q + q = 63 by omega]
  have hbound : -0x8000000000000000 ≤ signed true (m * 2 ^ q) ∧
      signed true (m * 2 ^ q) < 0x8000000000000000 := by
    unfold signed
    simp only [if_true]
    omega
  refine ⟨Int64.ofInt (signed true (m * 2 ^ q)), ?_, ?_⟩
  · unfold toInt64?
    rw [if_neg, hint]
    · simp only [Bool.and_eq_true, decide_eq_true_eq]
      rw [if_pos hbound]
    · rw [UInt64.le_iff_toNat_le, hmag]
      show ¬ 4895412794951729152 ≤ M
      omega
  · rw [Int64.toInt_ofInt_of_le hbound.1 hbound.2]
    unfold signed
    simp only [if_true]
    omega

end Double

end LuaHost
