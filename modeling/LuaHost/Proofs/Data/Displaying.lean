import LuaHost.Proofs.Numeric.Integral
import LuaHost.Proofs.Numeric.Shortest
import LuaHost.Proofs.Numeric.Spelling

/-!
# Numbers as text and back

The text of an integer is read as that integer, and the text of a finite double is read as that double,
as long as the text has a point or denotes more than 64 bits can hold.  From `10 ^ 16` on an integral
double is written without a point, so below `2 ^ 63` its text is read as an integer.
-/

namespace LuaHost

namespace Decimal

/-!
# Decimals without an exponent
-/

theorem toList_zeros (n : Nat) : (zeros n).toList = List.replicate n '0' := by
  unfold zeros String.pushn
  induction n with
  | zero => rfl
  | succ n ih => rw [Nat.repeat, String.toList_push, ih, ← List.replicate_succ']

theorem toList_toString (n : Nat) : (toString n).toList = Nat.toDigits 10 n := by
  rw [Nat.toString_eq_ofList_toDigits, String.toList_ofList]

theorem spells_positional {d : Decimal} {k : Nat} (h : d.scale = k) :
    Spells d.positional.toList (d.digits * 10 ^ k) := by
  have hscale : d.scale = Int.ofNat k := h
  unfold positional
  simp only [hscale, beq_iff_eq]
  by_cases hzero : d.digits = 0
  · rw [if_pos hzero, hzero, Nat.zero_mul]
    exact spells_toDigits 0
  · rw [if_neg hzero, String.toList_append, toList_toString, toList_zeros]
    exact (spells_toDigits d.digits).append_zeros k

theorem spellsPointed_positional {d : Decimal} {k : Nat} (h : d.scale = -((k + 1 : Nat) : Int)) :
    SpellsPointed d.positional.toList d.digits (k + 1) := by
  have hscale : d.scale = Int.negSucc k := h
  have hspells := spells_toDigits d.digits
  unfold positional
  simp only [hscale, ← String.length_toList, toList_toString]
  generalize hds : Nat.toDigits 10 d.digits = ds at hspells ⊢
  by_cases hplaces : k + 1 < ds.length
  · rw [if_pos hplaces]
    simp only [String.toList_append, String.toList_ofList, List.append_assoc]
    refine ⟨ds.take (ds.length - (k + 1)), ds.drop (ds.length - (k + 1)), rfl, ?_, ?_, ?_⟩
    · rwa [List.take_append_drop]
    · intro hnil
      have hlength := congrArg List.length hnil
      rw [List.length_take, List.length_nil] at hlength
      omega
    · rw [List.length_drop]
      omega
  · rw [if_neg hplaces, String.toList_append, String.toList_append, toList_zeros, toList_toString,
      hds, List.append_assoc]
    refine ⟨['0'], List.replicate (k + 1 - ds.length) '0' ++ ds, rfl, ?_, List.cons_ne_nil _ _, ?_⟩
    · exact (hspells.zeros_append (k + 1 - ds.length)).zeros_append 1
    · rw [List.length_append, List.length_replicate]
      omega

end Decimal

namespace Double

/-!
# Reading a decimal
-/

/-- Digits before and behind a point are read as the double to which they are rounded. -/
theorem scaled_eq {digits places m : Nat} (neg : Bool) (hplaces : places ≤ 5000)
    (h : Rounds ((digits : ℚ) / 10 ^ places) m) (hm : m < infinityBits.toNat) :
    Numeral.scaled neg digits 10 (-(places : Int)) = ⟨signBit neg ||| m.toUInt64⟩ := by
  unfold Numeral.scaled
  by_cases hzero : digits = 0
  · rw [hzero, Nat.cast_zero, zero_div] at h
    rw [if_pos (beq_iff_eq.mpr hzero)]
    apply ofQuotient_eq neg Nat.one_pos _ hm
    rwa [Nat.cast_zero, zero_div]
  · rw [if_neg (by rw [beq_iff_eq]; exact hzero)]
    cases places with
    | zero =>
        show ofQuotient neg (digits * 10 ^ 0) 1 = _
        rw [pow_zero, div_one] at h
        apply ofQuotient_eq neg Nat.one_pos _ hm
        rwa [Nat.pow_zero, Nat.mul_one, Nat.cast_one, div_one]
    | succ k =>
        show (if k > 5000 + 4 * digits.log2 then ofQuotient neg 0 1
          else ofQuotient neg digits (10 ^ (k + 1))) = _
        rw [if_neg (by omega)]
        apply ofQuotient_eq neg (Nat.pow_pos (by decide)) _ hm
        rwa [Nat.cast_pow, Nat.cast_ofNat]

theorem eq_of_magnitude (x : Double) :
    x = ⟨signBit x.negative ||| x.magnitude.toNat.toUInt64⟩ := by
  rw [show x.magnitude.toNat.toUInt64 = x.magnitude from UInt64.ofNat_toNat]
  exact eq_of_parts x

/-!
# Integral doubles
-/

theorem size_of_toInt? {x : Double} {z : Int} (h : x.toInt? = some z) :
    size x.magnitude.toNat = z.natAbs := by
  have habs := abs_value x
  rw [value_of_toInt? h, ← size_magnitude, ← Int.cast_abs, Int.abs_eq_natAbs,
    Int.cast_natCast] at habs
  exact habs.symm

theorem isSome_toInt?_iff {x : Double} (hfinite : x.isFinite = true) :
    x.toInt?.isSome = true ↔ exists n : Nat, size x.magnitude.toNat = n := by
  rw [Option.isSome_iff_exists]
  constructor
  · rintro ⟨z, hz⟩
    exact ⟨z.natAbs, size_of_toInt? hz⟩
  · rintro ⟨n, hn⟩
    refine ⟨signed x.negative n, toInt?_eq_some_iff.mpr ?_⟩
    unfold rational?
    rw [if_pos hfinite, value_of_multiple (n := n) (by rw [← size_magnitude, hn])]

theorem exists_size {n : Nat} (h : n ≤ 2 ^ 53) : exists m, size m = n := by
  have hint : (Int64.ofInt n).toInt = n := Int64.toInt_ofInt_of_le (by omega) (by omega)
  have hexact := toInt64?_ofInt64 (i := Int64.ofInt n) (by omega)
  rw [toInt64?_eq_some_iff, hint] at hexact
  exact ⟨_, size_of_toInt? hexact⟩

theorem natural_of_large {x : Double} (h : 2 ^ 53 ≤ size x.magnitude.toNat) :
    exists n : Nat, size x.magnitude.toNat = n := by
  rcases magnitude_eq x with ⟨p, _, hmag, hhigh, hlow⟩
  have hsize := size_add hhigh.le hlow
  rw [← hmag] at hsize
  have hexponent : 1074 ≤ p := by
    by_contra hsmall
    have hunit : (2 : ℚ) ^ ((p : Int) - 1074) ≤ 2 ^ (0 : Int) :=
      zpow_le_zpow_right₀ (by norm_num) (by omega)
    have hbits : (x.significand : ℚ) < 2 ^ 53 := by exact_mod_cast hhigh
    have hmul : (x.significand : ℚ) * 2 ^ ((p : Int) - 1074) ≤ x.significand * 2 ^ (0 : Int) :=
      mul_le_mul_of_nonneg_left hunit (by positivity)
    rw [zpow_zero, mul_one] at hmul
    linarith
  refine ⟨x.significand * 2 ^ (p - 1074), ?_⟩
  rw [hsize, show (p : Int) - 1074 = ((p - 1074 : Nat) : Int) by omega, zpow_natCast]
  push_cast
  rfl

/-- Only doubles that are integral are the nearest to a natural. -/
theorem natural_of_rounds {x : Double} {n : Nat} (h : Rounds n x.magnitude.toNat) :
    exists n : Nat, size x.magnitude.toNat = n := by
  by_cases hlarge : 2 ^ 53 ≤ size x.magnitude.toNat
  · exact natural_of_large hlarge
  · rcases exists_size (n := 2 ^ 53) (Nat.le_refl _) with ⟨m, hm⟩
    rw [Nat.cast_pow, Nat.cast_ofNat] at hm
    have hless : x.magnitude.toNat < m := by
      rw [← size_strictMono.lt_iff_lt, hm]
      exact lt_of_not_ge hlarge
    have hnext : size (x.magnitude.toNat + 1) ≤ 2 ^ 53 := by
      rw [← hm]
      exact size_strictMono.monotone hless
    have hn : n ≤ 2 ^ 53 := by
      have hhigh := h.high
      have hle : (n : ℚ) ≤ 2 ^ 53 := by linarith
      exact_mod_cast hle
    rcases exists_size hn with ⟨m', hm'⟩
    rw [← hm'] at h
    exact ⟨n, by rw [h.unique (rounds_size m'), hm']⟩

/-!
# The shortest decimal as text
-/

section

variable {x : Double} {s : String} (hfinite : x.isFinite = true)

include hfinite

theorem toList_display :
    x.display.toList = signChars x.negative ++ x.shortest.positional.toList := by
  unfold display
  rw [not_isNaN_of_isFinite hfinite, not_isInfinite_of_isFinite hfinite]
  simp only [Bool.false_eq_true, if_false, String.toList_append]
  cases x.negative <;> rfl

/-- A decimal with a point is read as the double. -/
theorem read_display_point (hscale : x.shortest.scale < 0) :
    Number.read x.display.toUTF8 = some (.float x) := by
  rcases Int.eq_negSucc_of_lt_zero hscale with ⟨k, hk⟩
  have hplaces : x.shortest.scale = -((k + 1 : Nat) : Int) := hk
  have hmost := shortest_scale hfinite
  have hvalue : (x.shortest.digits : ℚ) / 10 ^ (k + 1) = x.shortest.value := by
    unfold Decimal.value
    rw [hplaces, zpow_neg, zpow_natCast, div_eq_mul_inv]
  have hrounds := shortest_rounds hfinite
  rw [← hvalue] at hrounds
  rw [read_spellsPointed (toList_display hfinite) (Decimal.spellsPointed_positional hplaces),
    scaled_eq x.negative (by omega) hrounds (isFinite_iff.mp hfinite), ← eq_of_magnitude]

/-- A decimal without a point that a `.0` follows is read as the double. -/
theorem read_display_zero {k : Nat} (hk : x.shortest.scale = k) :
    Number.read (x.display ++ ".0").toUTF8 = some (.float x) := by
  have hspells := (Decimal.spells_positional hk).point_zero
  have htext : (x.display ++ ".0").toList =
      signChars x.negative ++ (x.shortest.positional.toList ++ ['.', '0']) := by
    rw [String.toList_append, toList_display hfinite, List.append_assoc]
    rfl
  have hvalue : ((x.shortest.digits * 10 ^ k * 10 : Nat) : ℚ) / 10 ^ 1 = x.shortest.value := by
    unfold Decimal.value
    rw [hk, zpow_natCast]
    push_cast
    field_simp
  have hrounds := shortest_rounds hfinite
  rw [← hvalue] at hrounds
  rw [read_spellsPointed htext hspells,
    scaled_eq x.negative (by decide) hrounds (isFinite_iff.mp hfinite), ← eq_of_magnitude]

end

/-!
# Integral doubles without a point
-/

theorem size_int64Limit : size 0x43e0000000000000 = 2 ^ 63 := by
  unfold size
  norm_num

/-- The natural that the text of an integral double denotes is below `2 ^ 63` exactly if the double
is, and is never `2 ^ 63` itself. -/
theorem natural_of_shortest {x : Double} (hfinite : x.isFinite = true) {n : Nat}
    (hn : x.shortest.value = n) :
    (size x.magnitude.toNat < 2 ^ 63 -> n < 2 ^ 63) ∧
      (2 ^ 63 ≤ size x.magnitude.toNat -> 2 ^ 63 < n) := by
  have hrounds := shortest_rounds hfinite
  rw [hn] at hrounds
  have hlow := hrounds.low
  have hhigh := hrounds.high
  rw [← size_int64Limit, size_strictMono.lt_iff_lt, size_strictMono.le_iff_le]
  constructor
  · intro hless
    -- the natural is at most half way to the next magnitude, which does not exceed the limit
    have hnext : size (x.magnitude.toNat + 1) ≤ 2 ^ 63 := by
      rw [← size_int64Limit]
      exact size_strictMono.monotone hless
    have hself : size x.magnitude.toNat < 2 ^ 63 := by
      rw [← size_int64Limit]
      exact size_strictMono hless
    have hlt : (n : ℚ) < 2 ^ 63 := by linarith
    exact_mod_cast hlt
  · intro hle
    by_cases hlimit : x.magnitude.toNat = 0x43e0000000000000
    · -- the text of this one is known
      have hshortest : x.shortest = ⟨9223372036854776, 3⟩ := by
        rw [eq_of_magnitude x, hlimit]
        cases x.negative <;> rfl
      rw [hshortest] at hn
      have hvalue : (n : ℚ) = 9223372036854776000 := by
        rw [← hn]
        unfold Decimal.value
        norm_num
      have heq : n = 9223372036854776000 := by exact_mod_cast hvalue
      omega
    · -- any other magnitude from the limit on has a neighbour below that reaches the limit
      have hbelow : 2 ^ 63 ≤ size (x.magnitude.toNat - 1) := by
        rw [← size_int64Limit]
        exact size_strictMono.monotone (by omega)
      have hself : size (x.magnitude.toNat - 1) < size x.magnitude.toNat :=
        size_strictMono (by omega)
      have hlt : (2 : ℚ) ^ 63 < n := by linarith
      exact_mod_cast hlt

end Double

namespace Number

open Double

theorem value_pointLimit : pointLimit.value = 10 ^ 16 := by
  have hexponent : pointLimit.exponent = 1 := rfl
  have hsignificand : pointLimit.significand = 5000000000000000 := rfl
  have hnegative : pointLimit.negative = false := rfl
  unfold Double.value
  rw [hexponent, hsignificand, hnegative, if_neg Bool.false_ne_true]
  norm_num

section

variable {x : Double} (hfinite : x.isFinite = true)

include hfinite

/-- An integer of 64 bits in whose reach a double lies is converted to that double. -/
theorem ofInt64_of_rounds {n : Nat} (hn : n ≠ 0) (hfits : n < 2 ^ 63)
    (hrounds : Rounds n x.magnitude.toNat) :
    ofInt64 (Int64.ofInt (signed x.negative n)) = x := by
  have hrange : -2 ^ 63 ≤ signed x.negative n ∧ signed x.negative n < 2 ^ 63 := by
    unfold signed
    cases x.negative with
    | false =>
        simp only [Bool.false_eq_true, if_false]
        omega
    | true =>
        simp only [if_true]
        omega
  unfold ofInt64 ofInt
  rw [Int64.toInt_ofInt_of_le hrange.1 hrange.2, natAbs_signed, signed_lt x.negative hn,
    ofQuotient_eq x.negative Nat.one_pos _ (isFinite_iff.mp hfinite), ← eq_of_magnitude]
  rwa [Nat.cast_one, div_one]

/-- An integral double that is written without a point is read as an integer that is converted to it,
if that fits in 64 bits. -/
theorem read_display_whole {k : Nat} (hk : x.shortest.scale = k) (hpos : size x.magnitude.toNat ≠ 0) :
    if size x.magnitude.toNat < 2 ^ 63 then
      exists i, Number.read x.display.toUTF8 = some (.int i) ∧ ofInt64 i = x
    else Number.read x.display.toUTF8 = some (.float x) := by
  have hread := read_spells (toList_display hfinite) (Decimal.spells_positional hk)
  have hn : x.shortest.value = (x.shortest.digits * 10 ^ k : Nat) := by
    unfold Decimal.value
    rw [hk, zpow_natCast]
    push_cast
    rfl
  have hrounds := shortest_rounds hfinite
  rcases natural_of_shortest hfinite hn with ⟨hsmall, hlarge⟩
  rw [hn] at hrounds
  generalize x.shortest.digits * 10 ^ k = n at hread hrounds hsmall hlarge
  rw [hread]
  split
  · next hless =>
    have hne : n ≠ 0 := by
      rintro rfl
      rw [Nat.cast_zero, ← size_zero] at hrounds
      rw [hrounds.unique (rounds_size 0), size_zero] at hpos
      exact hpos rfl
    rw [if_pos (Or.inl (hsmall hless))]
    exact ⟨_, rfl, ofInt64_of_rounds hfinite hne (hsmall hless) hrounds⟩
  · next hmore =>
    have hbeyond := hlarge (le_of_not_gt hmore)
    rw [← div_one (n : ℚ), ← pow_zero (10 : ℚ)] at hrounds
    have hscaled := scaled_eq x.negative (by decide) hrounds (isFinite_iff.mp hfinite)
    rw [← eq_of_magnitude] at hscaled
    rw [if_neg (by omega)]
    exact congrArg (fun y => some (Number.float y)) hscaled

/-- A double is written with a `.0` exactly if it is integral and below `10 ^ 16`. -/
theorem display_float :
    Number.display (.float x) =
      if x.toInt?.isSome = true ∧ size x.magnitude.toNat < 10 ^ 16 then x.display ++ ".0"
      else x.display := by
  have habs : x.abs.isFinite = true := by
    rw [isFinite_iff, magnitude_abs]
    exact isFinite_iff.mp hfinite
  have hlimit : x.abs.lt pointLimit = true ↔ size x.magnitude.toNat < 10 ^ 16 := by
    rw [lt_iff_value_lt habs rfl, value_pointLimit, value_abs]
  show (if x.isNaN then (if x.negative then "-nan" else "nan")
    else if x.isInfinite then (if x.negative then "-inf" else "inf")
    else if x.fraction.isZero && x.abs.lt pointLimit then x.display ++ ".0"
    else x.display) = _
  rw [not_isNaN_of_isFinite hfinite, not_isInfinite_of_isFinite hfinite, isZero_fraction]
  simp only [Bool.false_eq_true, if_false, Bool.and_eq_true, hlimit]

end

theorem read_display_int (i : Int64) : Number.read (display (.int i)).toUTF8 = some (.int i) := by
  have hlow := Int64.le_toInt i
  have hhigh := Int64.toInt_lt i
  have htext : (display (.int i)).toList =
      signChars (decide (i.toInt < 0)) ++ Nat.toDigits 10 i.toInt.natAbs := by
    show (i.toInt.repr).toList = _
    rw [Int.repr_eq_if]
    by_cases hneg : i.toInt < 0
    · rw [if_neg (by omega), decide_eq_true hneg, String.toList_append]
      show ['-'] ++ (toString (-i.toInt).toNat).toList = _
      rw [Decimal.toList_toString, show (-i.toInt).toNat = i.toInt.natAbs by omega]
      rfl
    · rw [if_pos (by omega), decide_eq_false hneg]
      show (toString i.toInt.toNat).toList = _
      rw [Decimal.toList_toString, show i.toInt.toNat = i.toInt.natAbs by omega]
      rfl
  rw [read_spells htext (spells_toDigits _), if_pos (by rw [decide_eq_true_eq]; omega)]
  have hsigned : (if decide (i.toInt < 0) = true then -(i.toInt.natAbs : Int) else i.toInt.natAbs) =
      i.toInt := by
    split
    · next hneg =>
      rw [decide_eq_true_eq] at hneg
      omega
    · next hneg =>
      rw [decide_eq_true_eq] at hneg
      omega
  rw [hsigned, Int64.ofInt_toInt]

section

variable {x : Double} (hfinite : x.isFinite = true)

include hfinite

theorem scale_neg_of_fraction (h : x.toInt?.isSome = false) : x.shortest.scale < 0 := by
  by_contra hscale
  rcases Int.eq_ofNat_of_zero_le (Int.not_lt.mp hscale) with ⟨k, hk⟩
  have hvalue : x.shortest.value = (x.shortest.digits * 10 ^ k : Nat) := by
    unfold Decimal.value
    rw [hk, zpow_natCast]
    push_cast
    rfl
  have hrounds := shortest_rounds hfinite
  rw [hvalue] at hrounds
  rw [(isSome_toInt?_iff hfinite).mpr (natural_of_rounds hrounds)] at h
  cases h

theorem read_display_small (h : size x.magnitude.toNat < 10 ^ 16) :
    Number.read (display (.float x)).toUTF8 = some (.float x) := by
  rw [display_float hfinite]
  cases hint : x.toInt?.isSome with
  | true =>
      rcases (isSome_toInt?_iff hfinite).mp hint with ⟨n, hn⟩
      rcases Int.eq_ofNat_of_zero_le (shortest_scale_nonneg hfinite hn) with ⟨k, hk⟩
      rw [if_pos ⟨rfl, h⟩]
      exact read_display_zero hfinite hk
  | false =>
      rw [if_neg fun hand => Bool.false_ne_true hand.1]
      exact read_display_point hfinite (scale_neg_of_fraction hfinite hint)

/-- From there on none has, and the size decides how it is read. -/
theorem read_display_large (h : 10 ^ 16 ≤ size x.magnitude.toNat) :
    if size x.magnitude.toNat < 2 ^ 63 then
      exists i, Number.read (display (.float x)).toUTF8 = some (.int i) ∧ ofInt64 i = x
    else Number.read (display (.float x)).toUTF8 = some (.float x) := by
  rcases natural_of_large (x := x) (le_trans (by norm_num) h) with ⟨n, hn⟩
  rcases Int.eq_ofNat_of_zero_le (shortest_scale_nonneg hfinite hn) with ⟨k, hk⟩
  have htext : display (.float x) = x.display := by
    rw [display_float hfinite, if_neg fun hand => absurd hand.2 (not_lt_of_ge h)]
  rw [htext]
  exact read_display_whole hfinite hk (ne_of_gt (lt_of_lt_of_le (by norm_num) h))

end

/-- The text of an integer is read as that integer, and the text of a finite double as that double,
with the sign of a zero.  The exceptions are doubles from `10 ^ 16` up to `2 ^ 63`, whose text is read
as an integer that is converted to the double. -/
theorem display_read (i : Int64) (x : Double) (hfinite : x.isFinite = true) :
    Number.read (display (.int i)).toUTF8 = some (.int i) ∧
    (¬ (10 ^ 16 ≤ |x.value| ∧ |x.value| < 2 ^ 63) ->
      Number.read (display (.float x)).toUTF8 = some (.float x)) ∧
    (10 ^ 16 ≤ |x.value| -> |x.value| < 2 ^ 63 ->
      exists j, Number.read (display (.float x)).toUTF8 = some (.int j) ∧ ofInt64 j = x) := by
  have hsize : |x.value| = size x.magnitude.toNat := by
    rw [abs_value, size_magnitude]
  rw [hsize]
  refine ⟨read_display_int i, fun houtside => ?_, fun hlow hhigh => ?_⟩
  · by_cases hsmall : size x.magnitude.toNat < 10 ^ 16
    · exact read_display_small hfinite hsmall
    · have hlarge := read_display_large hfinite (le_of_not_gt hsmall)
      rwa [if_neg fun hless => houtside ⟨le_of_not_gt hsmall, hless⟩] at hlarge
  · have hlarge := read_display_large hfinite hlow
    rwa [if_pos hhigh] at hlarge

/-- The negative zero is read as a double, and keeps its sign. -/
theorem display_read_zero :
    (⟨0x8000000000000000⟩ : Double).isFinite = true ∧
    Number.read (display (.float ⟨0x8000000000000000⟩)).toUTF8 =
      some (.float ⟨0x8000000000000000⟩) := by
  have hvalue : |(⟨0x8000000000000000⟩ : Double).value| = 0 := by
    have hsignificand : (⟨0x8000000000000000⟩ : Double).significand = 0 := rfl
    rw [abs_value, hsignificand]
    norm_num
  exact ⟨rfl, (display_read 0 ⟨0x8000000000000000⟩ rfl).2.1 (by rw [hvalue]; norm_num)⟩

/-- The double `-10 ^ 16` is written without a point, and read as an integer. -/
theorem integral_read_as_integer :
    (⟨0xc341c37937e08000⟩ : Double).isFinite = true ∧
      display (.float ⟨0xc341c37937e08000⟩) = "-10000000000000000" ∧
      Number.read (display (.float ⟨0xc341c37937e08000⟩)).toUTF8 = some (.int (-10000000000000000)) := by
  decide +kernel

end Number

end LuaHost
