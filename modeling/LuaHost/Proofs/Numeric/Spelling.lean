import LuaHost.Numeric.Numeral
import Mathlib.Algebra.Group.Nat.Defs
import Mathlib.Data.List.Basic

/-!
# Decimal numerals in texts

A numeral of digits alone is read as an integer as long as that fits; one with a point is read as a
double, whatever its digits are.
-/

namespace LuaHost

/-!
# Digits as characters and as bytes
-/

/-- Digits, one at least, and the number that they make up. -/
structure Spells (cs : List Char) (n : Nat) : Prop where
  nonempty : cs ≠ []
  digits : forall c, c ∈ cs -> c.isDigit = true
  number : Nat.ofDigitChars 10 cs 0 = n

/-- Digits on both sides of a point, the number that all of them make up, and how many there are
behind the point. -/
def SpellsPointed (cs : List Char) (n places : Nat) : Prop :=
  exists whole part, cs = whole ++ '.' :: part ∧ Spells (whole ++ part) n ∧ whole ≠ [] ∧
    part.length = places

theorem isDigit_iff {c : Char} : c.isDigit = true ↔ 48 ≤ c.toNat ∧ c.toNat ≤ 57 := by
  unfold Char.isDigit
  rw [Bool.and_eq_true, decide_eq_true_eq, decide_eq_true_eq]
  exact Iff.rfl

theorem spells_toDigits (n : Nat) : Spells (Nat.toDigits 10 n) n :=
  ⟨Nat.toDigits_ne_nil, fun _ => Nat.isDigit_of_mem_toDigits (by decide) (by decide),
    Nat.ofDigitChars_ten_toDigits⟩

theorem Spells.append_zeros {cs : List Char} {n : Nat} (h : Spells cs n) (k : Nat) :
    Spells (cs ++ List.replicate k '0') (n * 10 ^ k) := by
  refine ⟨List.append_ne_nil_of_left_ne_nil h.nonempty _, ?_, ?_⟩
  · intro c hc
    rcases List.mem_append.mp hc with hc | hc
    · exact h.digits c hc
    · rw [List.eq_of_mem_replicate hc]
      decide
  · rw [Nat.ofDigitChars_append, h.number, Nat.ofDigitChars_replicate_zero, Nat.mul_comm]

theorem Spells.zeros_append {cs : List Char} {n : Nat} (h : Spells cs n) (k : Nat) :
    Spells (List.replicate k '0' ++ cs) n := by
  refine ⟨List.append_ne_nil_of_right_ne_nil _ h.nonempty, ?_, ?_⟩
  · intro c hc
    rcases List.mem_append.mp hc with hc | hc
    · rw [List.eq_of_mem_replicate hc]
      decide
    · exact h.digits c hc
  · rw [Nat.ofDigitChars_append, Nat.ofDigitChars_replicate_zero, Nat.mul_zero, h.number]

theorem Spells.point_zero {cs : List Char} {n : Nat} (h : Spells cs n) :
    SpellsPointed (cs ++ ['.', '0']) (n * 10) 1 := by
  refine ⟨cs, ['0'], rfl, ?_, h.nonempty, rfl⟩
  have hzero := h.append_zeros 1
  rwa [Nat.pow_one] at hzero

namespace Numeral

/-- The bytes of ASCII characters. -/
def codes (cs : List Char) : Rest := cs.map Bytes.code

theorem toNat_code {c : Char} (h : c.toNat < 256) : (Bytes.code c).toNat = c.toNat :=
  UInt8.toNat_ofNat_of_lt' h

theorem toUTF8_codes {s : String} (h : forall c, c ∈ s.toList -> c.toNat < 128) :
    s.toUTF8.data.toList = codes s.toList := by
  have hflat : forall cs : List Char, (forall c, c ∈ cs -> c.toNat < 128) ->
      cs.flatMap String.utf8EncodeChar = codes cs := by
    intro cs
    induction cs with
    | nil => exact fun _ => rfl
    | cons c cs ih =>
        intro hcs
        have hsize : c.utf8Size = 1 := by
          rw [Char.utf8Size_eq_one_iff, UInt32.le_iff_toNat_le]
          exact Nat.le_of_lt_succ (hcs c List.mem_cons_self)
        rw [List.flatMap_cons, String.utf8EncodeChar_eq_singleton hsize,
          ih fun d hd => hcs d (List.mem_cons_of_mem c hd)]
        rfl
  show s.toByteArray.data.toList = _
  rw [← String.utf8Encode_toList]
  unfold List.utf8Encode
  rw [List.data_toByteArray, List.toList_toArray, hflat s.toList h]

section

variable {cs : List Char} (h : forall c, c ∈ cs -> c.isDigit = true)

include h

theorem isDigit_codes : forall b, b ∈ codes cs -> Ascii.isDigit b = true := by
  intro b hb
  rcases List.mem_map.mp hb with ⟨c, hc, rfl⟩
  rcases isDigit_iff.mp (h c hc) with ⟨hlow, hhigh⟩
  unfold Ascii.isDigit
  rw [Bool.and_eq_true, decide_eq_true_eq, decide_eq_true_eq, UInt8.le_iff_toNat_le,
    UInt8.le_iff_toNat_le, toNat_code (by omega)]
  exact ⟨hlow, hhigh⟩

theorem foldDigits_codes (acc : Nat) :
    foldDigits 10 Ascii.hexValue acc (codes cs) = Nat.ofDigitChars 10 cs acc := by
  induction cs generalizing acc with
  | nil => rfl
  | cons c cs ih =>
      have hc := h c List.mem_cons_self
      have hdigit := isDigit_codes h (Bytes.code c) List.mem_cons_self
      have hvalue : Ascii.hexValue (Bytes.code c) = c.toNat - '0'.toNat := by
        rcases isDigit_iff.mp hc with ⟨_, hhigh⟩
        unfold Ascii.hexValue
        rw [if_pos hdigit, toNat_code (by omega)]
        rfl
      have hstep := ih (fun d hd => h d (List.mem_cons_of_mem c hd))
        (acc * 10 + Ascii.hexValue (Bytes.code c))
      show foldDigits 10 Ascii.hexValue (acc * 10 + Ascii.hexValue (Bytes.code c)) (codes cs) = _
      rw [hstep, hvalue, Nat.mul_comm]
      rfl

end

/-!
# The beginning of a numeral
-/

/-- A minus sign, if there is one. -/
def signCodes (neg : Bool) : Rest := if neg then [45] else []

variable {neg : Bool} {c : UInt8} {s ds ps rest : Rest}

theorem isDigit_eq (c : UInt8) : Ascii.isDigit c = true ↔ 48 ≤ c.toNat ∧ c.toNat ≤ 57 := by
  unfold Ascii.isDigit
  rw [Bool.and_eq_true, decide_eq_true_eq, decide_eq_true_eq, UInt8.le_iff_toNat_le,
    UInt8.le_iff_toNat_le]
  exact Iff.rfl

theorem skipSpace_signed (hc : Ascii.isDigit c = true) :
    skipSpace (signCodes neg ++ c :: s) = signCodes neg ++ c :: s := by
  have hspace : Ascii.isSpace c = false := by
    rw [isDigit_eq] at hc
    unfold Ascii.isSpace
    simp only [Bool.or_eq_false_iff, Bool.and_eq_false_iff, beq_eq_false_iff_ne, ne_eq,
      decide_eq_false_iff_not, UInt8.le_iff_toNat_le, ← UInt8.toNat_inj]
    refine ⟨?_, Or.inr ?_⟩
    · show ¬ c.toNat = 32
      omega
    · show ¬ c.toNat ≤ 13
      omega
  unfold skipSpace
  cases neg with
  | false =>
      show (c :: s).dropWhile Ascii.isSpace = c :: s
      rw [List.dropWhile_cons_of_neg (by rw [hspace]; exact Bool.false_ne_true)]
  | true => rfl

theorem readSign_signed (hc : Ascii.isDigit c = true) :
    readSign (signCodes neg ++ c :: s) = (neg, c :: s) := by
  cases neg with
  | true => rfl
  | false =>
      rw [isDigit_eq] at hc
      show readSign (c :: s) = (false, c :: s)
      unfold readSign
      split
      · next heq =>
        cases heq
        exact absurd hc.1 (by decide)
      · next heq =>
        cases heq
        exact absurd hc.1 (by decide)
      · rfl

/-- What may follow digits: nothing, or a point. -/
def Stops (rest : Rest) : Prop := rest = [] ∨ exists ps, rest = 46 :: ps

theorem takeWhile_digits (hds : forall c, c ∈ ds -> Ascii.isDigit c = true) (hrest : Stops rest) :
    (ds ++ rest).takeWhile Ascii.isDigit = ds := by
  rw [List.takeWhile_append_of_pos hds]
  rcases hrest with rfl | ⟨ps, rfl⟩
  · rw [List.takeWhile_nil, List.append_nil]
  · rw [List.takeWhile_cons_of_neg (by decide), List.append_nil]

theorem hexMark_digits (hds : forall c, c ∈ ds -> Ascii.isDigit c = true) (hrest : Stops rest) :
    hexMark (ds ++ rest) = none := by
  -- the second byte is a digit or the point
  have hsecond : forall c d r, ds ++ rest = c :: d :: r -> Ascii.isDigit d = true ∨ d = 46 ∨ c = 46 := by
    intro c d r heq
    match ds, hds, heq with
    | [], _, heq =>
        rcases hrest with rfl | ⟨ps, rfl⟩
        · cases heq
        · cases heq
          exact Or.inr (Or.inr rfl)
    | [_], _, heq =>
        rcases hrest with rfl | ⟨ps, rfl⟩
        · cases heq
        · cases heq
          exact Or.inr (Or.inl rfl)
    | _ :: _ :: _, hds, heq =>
        cases heq
        exact Or.inl (hds _ (List.mem_cons_of_mem _ List.mem_cons_self))
  unfold hexMark
  split
  · next heq =>
    rcases hsecond _ _ _ heq with h | h | h <;> exact absurd h (by decide)
  · next heq =>
    rcases hsecond _ _ _ heq with h | h | h <;> exact absurd h (by decide)
  · rfl

/-!
# Reading
-/

theorem readDigits_whole (hds : forall c, c ∈ ds -> Ascii.isDigit c = true) :
    readDigits Ascii.isDigit ds = (ds, 0, []) := by
  have htake := takeWhile_digits hds (Or.inl rfl)
  rw [List.append_nil] at htake
  unfold readDigits
  dsimp only
  rw [htake, List.drop_length]

theorem readDigits_point (hds : forall c, c ∈ ds -> Ascii.isDigit c = true)
    (hps : forall c, c ∈ ps -> Ascii.isDigit c = true) :
    readDigits Ascii.isDigit (ds ++ 46 :: ps) = (ds ++ ps, ps.length, []) := by
  have htake := takeWhile_digits hds (Or.inr ⟨ps, rfl⟩)
  have htake' := takeWhile_digits hps (Or.inl rfl)
  rw [List.append_nil] at htake'
  unfold readDigits
  dsimp only
  rw [htake, List.drop_left]
  show (ds ++ ps.takeWhile Ascii.isDigit, (ps.takeWhile Ascii.isDigit).length,
    ps.drop (ps.takeWhile Ascii.isDigit).length) = _
  rw [htake', List.drop_length]

section

variable (hne : ds ≠ []) (hds : forall c, c ∈ ds -> Ascii.isDigit c = true)

include hne hds

/-- Digits alone are an integer if that fits in 64 bits. -/
theorem readInt_digits :
    readInt (signCodes neg ++ ds) =
      if foldDigits 10 Ascii.hexValue 0 ds < 2 ^ 63 ∨
          (neg = true ∧ foldDigits 10 Ascii.hexValue 0 ds = 2 ^ 63) then
        some (Int64.ofInt (if neg then -(foldDigits 10 Ascii.hexValue 0 ds : Int)
          else foldDigits 10 Ascii.hexValue 0 ds))
      else none := by
  rcases List.exists_cons_of_ne_nil hne with ⟨c, ds', rfl⟩
  have hc := hds c List.mem_cons_self
  have hmark := hexMark_digits hds (Or.inl rfl)
  have htake := takeWhile_digits hds (Or.inl rfl)
  rw [List.append_nil] at hmark htake
  unfold readInt
  rw [skipSpace_signed hc, readSign_signed hc]
  dsimp only
  rw [hmark]
  dsimp only
  rw [htake, List.drop_length, show 2 ^ 63 = 9223372036854775808 from rfl]
  simp only [List.isEmpty_cons, Bool.false_or, atEnd, skipSpace, List.dropWhile_nil,
    List.isEmpty_nil, Bool.not_true, Bool.false_eq_true, if_false, Bool.or_eq_true,
    Bool.and_eq_true, decide_eq_true_eq, beq_iff_eq]

theorem readInt_point : readInt (signCodes neg ++ (ds ++ 46 :: ps)) = none := by
  rcases List.exists_cons_of_ne_nil hne with ⟨c, ds', rfl⟩
  have hc := hds c List.mem_cons_self
  have hmark := hexMark_digits hds (Or.inr ⟨ps, rfl⟩)
  have htake := takeWhile_digits hds (Or.inr ⟨ps, rfl⟩)
  rw [List.cons_append] at hmark htake ⊢
  unfold readInt
  rw [skipSpace_signed hc, readSign_signed hc]
  dsimp only
  rw [hmark]
  dsimp only
  rw [htake, ← List.cons_append, List.drop_left]
  rfl

theorem readDouble_digits :
    readDouble (signCodes neg ++ ds) =
      some (scaled neg (foldDigits 10 Ascii.hexValue 0 ds) 10 0) := by
  have hdigits := readDigits_whole hds
  rcases List.exists_cons_of_ne_nil hne with ⟨c, ds', rfl⟩
  have hc := hds c List.mem_cons_self
  have hmark := hexMark_digits hds (Or.inl rfl)
  rw [List.append_nil] at hmark
  unfold readDouble readDoubleAt
  rw [skipSpace_signed hc, readSign_signed hc]
  dsimp only
  rw [hmark]
  dsimp only
  rw [hdigits]
  rfl

theorem readDouble_point (hps : forall c, c ∈ ps -> Ascii.isDigit c = true) :
    readDouble (signCodes neg ++ (ds ++ 46 :: ps)) =
      some (scaled neg (foldDigits 10 Ascii.hexValue 0 (ds ++ ps)) 10 (-(ps.length : Int))) := by
  have hdigits := readDigits_point hds hps
  rcases List.exists_cons_of_ne_nil hne with ⟨c, ds', rfl⟩
  have hc := hds c List.mem_cons_self
  have hmark := hexMark_digits hds (Or.inr ⟨ps, rfl⟩)
  rw [List.cons_append] at hmark hdigits ⊢
  unfold readDouble readDoubleAt
  rw [skipSpace_signed hc, readSign_signed hc]
  dsimp only
  rw [hmark]
  dsimp only
  rw [hdigits, ← Int.zero_sub]
  rfl

end

end Numeral

/-!
# Texts
-/

section

open Numeral

variable {s : String} {neg : Bool} {cs : List Char} {n : Nat}

/-- The characters of a sign. -/
def signChars (neg : Bool) : List Char := if neg then ['-'] else []

theorem codes_signChars (neg : Bool) : codes (signChars neg) = signCodes neg := by
  cases neg <;> rfl

theorem toNat_signChars {c : Char} (h : c ∈ signChars neg) : c.toNat < 128 := by
  cases neg with
  | false => cases h
  | true =>
      rw [List.mem_singleton.mp h]
      decide

theorem Spells.toNat_lt (h : Spells cs n) {c : Char} (hc : c ∈ cs) : c.toNat < 128 := by
  have hdigit := isDigit_iff.mp (h.digits c hc)
  omega

theorem read_spells (hs : s.toList = signChars neg ++ cs) (h : Spells cs n) :
    Number.read s.toUTF8 =
      if n < 2 ^ 63 ∨ (neg = true ∧ n = 2 ^ 63) then
        some (.int (Int64.ofInt (if neg then -(n : Int) else n)))
      else some (.float (scaled neg n 10 0)) := by
  have hascii : forall c, c ∈ s.toList -> c.toNat < 128 := by
    intro c hc
    rw [hs] at hc
    rcases List.mem_append.mp hc with hc | hc
    · exact toNat_signChars hc
    · exact h.toNat_lt hc
  have hbytes : s.toUTF8.data.toList = signCodes neg ++ codes cs := by
    rw [toUTF8_codes hascii, hs, ← codes_signChars]
    exact List.map_append
  have hne : codes cs ≠ [] := fun hnil => h.nonempty (List.map_eq_nil_iff.mp hnil)
  have hds := isDigit_codes h.digits
  have hnumber : foldDigits 10 Ascii.hexValue 0 (codes cs) = n := by
    rw [foldDigits_codes h.digits, h.number]
  unfold Number.read
  dsimp only
  rw [hbytes, readInt_digits hne hds, readDouble_digits hne hds, hnumber]
  by_cases hfits : n < 2 ^ 63 ∨ (neg = true ∧ n = 2 ^ 63)
  · rw [if_pos hfits, if_pos hfits]
  · rw [if_neg hfits, if_neg hfits]
    rfl

theorem read_spellsPointed {places : Nat} (hs : s.toList = signChars neg ++ cs)
    (h : SpellsPointed cs n places) :
    Number.read s.toUTF8 = some (.float (scaled neg n 10 (-(places : Int)))) := by
  rcases h with ⟨whole, part, rfl, hspells, hwhole, rfl⟩
  have hascii : forall c, c ∈ s.toList -> c.toNat < 128 := by
    intro c hc
    rw [hs] at hc
    rcases List.mem_append.mp hc with hc | hc
    · exact toNat_signChars hc
    · rcases List.mem_append.mp hc with hc | hc
      · exact hspells.toNat_lt (List.mem_append_left _ hc)
      · rcases List.mem_cons.mp hc with rfl | hc
        · decide
        · exact hspells.toNat_lt (List.mem_append_right _ hc)
  have hbytes : s.toUTF8.data.toList = signCodes neg ++ (codes whole ++ 46 :: codes part) := by
    rw [toUTF8_codes hascii, hs, ← codes_signChars]
    unfold codes
    rw [List.map_append, List.map_append, List.map_cons]
    rfl
  have hne : codes whole ≠ [] := fun hnil => hwhole (List.map_eq_nil_iff.mp hnil)
  have hds := isDigit_codes fun c hc => hspells.digits c (List.mem_append_left _ hc)
  have hps := isDigit_codes fun c hc => hspells.digits c (List.mem_append_right _ hc)
  have hnumber : foldDigits 10 Ascii.hexValue 0 (codes whole ++ codes part) = n := by
    rw [show codes whole ++ codes part = codes (whole ++ part) from List.map_append.symm,
      foldDigits_codes hspells.digits, hspells.number]
  have hlength : (codes part).length = part.length := List.length_map _
  unfold Number.read
  dsimp only
  rw [hbytes, readInt_point hne hds, readDouble_point hne hds hps, hnumber, hlength]
  rfl

end

end LuaHost
