import LuaHost.Proofs.Interface.Keys
import LuaHost.Text.Lossy

/-!
# Bytes of the same text

Reading bytes as text puts a replacement character wherever they are not UTF-8.
So a text without replacement characters comes from its own encoding only.
-/

namespace LuaHost.Bytes

/-- The bytes from a position on. -/
def fromPlace (b : Bytes) (i : Nat) : List UInt8 := b.data.toList.drop i

theorem fromPlace_eq_cons {b : Bytes} {i : Nat} (h : i < b.size) :
    b.fromPlace i = b.byteAt i :: b.fromPlace (i + 1) := by
  have hlength : i < b.data.toList.length := by
    rw [Array.length_toList]
    exact h
  unfold fromPlace byteAt
  rw [dif_pos h, List.drop_eq_getElem_cons hlength]
  rfl

/-- Past the end there are only zeros. -/
theorem fromPlace_of_byteAt {b : Bytes} {i : Nat} (h : 0x80 ≤ (b.byteAt i).toNat) :
    b.fromPlace i = b.byteAt i :: b.fromPlace (i + 1) := by
  refine fromPlace_eq_cons ?_
  by_contra hover
  have hzero : b.byteAt i = 0 := dif_neg hover
  rw [hzero] at h
  exact absurd h (by decide)

/-!
# Characters
-/

theorem isContinuation_iff {c : UInt8} :
    isContinuation c = true ↔ 0x80 ≤ c.toNat ∧ c.toNat ≤ 0xBF := by
  unfold isContinuation
  rw [Bool.and_eq_true, decide_eq_true_iff, decide_eq_true_iff, UInt8.le_iff_toNat_le,
    UInt8.le_iff_toNat_le]
  rfl

/-- The first byte of a character tells how many there are. -/
theorem leadWidth_cases (c : UInt8) :
    (leadWidth c = 1 ∧ c.toNat < 0x80) ∨
      (leadWidth c = 2 ∧ 0xC2 ≤ c.toNat ∧ c.toNat ≤ 0xDF) ∨
      (leadWidth c = 3 ∧ 0xE0 ≤ c.toNat ∧ c.toNat ≤ 0xEF) ∨
      (leadWidth c = 4 ∧ 0xF0 ≤ c.toNat ∧ c.toNat ≤ 0xF4) ∨ leadWidth c = 0 := by
  simp only [leadWidth, UInt8.lt_iff_toNat_lt, UInt8.le_iff_toNat_le, UInt8.reduceToNat,
    Bool.and_eq_true, decide_eq_true_iff]
  split
  · exact Or.inl ⟨rfl, ‹_›⟩
  · split
    · exact Or.inr (Or.inl ⟨rfl, ‹_›⟩)
    · split
      · exact Or.inr (Or.inr (Or.inl ⟨rfl, ‹_›⟩))
      · split
        · exact Or.inr (Or.inr (Or.inr (Or.inl ⟨rfl, ‹_›⟩)))
        · exact Or.inr (Or.inr (Or.inr (Or.inr rfl)))

/-- Overlong forms, surrogates and numbers that are too large have no second byte. -/
theorem secondAllowed_bounds {lead c : UInt8} (h : secondAllowed lead c = true) :
    0x80 ≤ c.toNat ∧ c.toNat ≤ 0xBF ∧ (lead.toNat = 0xE0 → 0xA0 ≤ c.toNat) ∧
      (lead.toNat = 0xED → c.toNat ≤ 0x9F) ∧ (lead.toNat = 0xF0 → 0x90 ≤ c.toNat) ∧
      (lead.toNat = 0xF4 → c.toNat ≤ 0x8F) := by
  simp only [secondAllowed, isContinuation, beq_iff_eq, ← UInt8.toNat_inj, UInt8.le_iff_toNat_le,
    UInt8.reduceToNat] at h
  split at h
  · rw [Bool.and_eq_true, decide_eq_true_iff, decide_eq_true_iff] at h
    omega
  · split at h
    · rw [Bool.and_eq_true, decide_eq_true_iff, decide_eq_true_iff] at h
      omega
    · split at h
      · rw [Bool.and_eq_true, decide_eq_true_iff, decide_eq_true_iff] at h
        omega
      · split at h
        · rw [Bool.and_eq_true, decide_eq_true_iff, decide_eq_true_iff] at h
          omega
        · rw [Bool.and_eq_true, decide_eq_true_iff, decide_eq_true_iff] at h
          omega

theorem utf8EncodeChar_ofNat {n : Nat} (h : n.isValidChar) :
    String.utf8EncodeChar (Char.ofNat n) =
      if n ≤ 0x7f then [UInt8.ofNat n]
      else if n ≤ 0x7ff then [UInt8.ofNat (n / 64 % 32 + 192), UInt8.ofNat (n % 64 + 128)]
      else if n ≤ 0xffff then
        [UInt8.ofNat (n / 4096 % 16 + 224), UInt8.ofNat (n / 64 % 64 + 128),
          UInt8.ofNat (n % 64 + 128)]
      else
        [UInt8.ofNat (n / 262144 % 8 + 240), UInt8.ofNat (n / 4096 % 64 + 128),
          UInt8.ofNat (n / 64 % 64 + 128), UInt8.ofNat (n % 64 + 128)] := by
  have hval : (Char.ofNat n).val.toNat = n := by
    unfold Char.ofNat
    rw [dif_pos h]
    rfl
  unfold String.utf8EncodeChar
  rw [hval]

theorem ofNat_eq {c : UInt8} {n : Nat} (h : n = c.toNat) : UInt8.ofNat n = c := by
  rw [h]
  exact UInt8.ofNat_toNat

theorem width_pieceAt_pos (b : Bytes) (i : Nat) : 0 < (b.pieceAt i).width := by
  have hsome {n : Nat} (h : 0 < n) (c : Char) : 0 < (Piece.char c n).width := h
  have hbroken {n : Nat} (h : 0 < n) : 0 < (Piece.broken n).width := h
  unfold pieceAt
  dsimp only
  repeat' split
  all_goals first | exact hsome (by decide) _ | exact hbroken (by decide)

/-- A whole character has been read from its encoding. -/
theorem fromPlace_of_char {b : Bytes} {i w : Nat} {c : Char} (hi : i < b.size)
    (h : b.pieceAt i = .char c w) :
    b.fromPlace i = String.utf8EncodeChar c ++ b.fromPlace (i + w) := by
  rw [fromPlace_eq_cons hi]
  unfold pieceAt at h
  dsimp only at h
  -- one case for each width; the bounds on the bytes say which branch of the encoding it is
  rcases leadWidth_cases (b.byteAt i) with
    ⟨hw, hlt⟩ | ⟨hw, hle, hle'⟩ | ⟨hw, hle, hle'⟩ | ⟨hw, hle, hle'⟩ | hw
  · rw [hw] at h
    cases h
    rw [utf8EncodeChar_ofNat (Or.inl (by omega)), if_pos (by omega), ofNat_eq rfl]
    rfl
  · simp only [hw] at h
    split at h
    · cases h
    · next hsecond =>
        rw [Bool.not_eq_true', Bool.not_eq_false, isContinuation_iff] at hsecond
        rcases Piece.char.inj h with ⟨rfl, rfl⟩
        rw [utf8EncodeChar_ofNat (Or.inl (by omega)), if_neg (by omega), if_pos (by omega),
          ofNat_eq (c := b.byteAt i) (by omega), ofNat_eq (c := b.byteAt (i + 1)) (by omega),
          fromPlace_of_byteAt hsecond.1]
        rfl
  · simp only [hw] at h
    split at h
    · cases h
    · next hsecond =>
        split at h
        · cases h
        · next hthird =>
            rw [Bool.not_eq_true', Bool.not_eq_false] at hsecond hthird
            rw [isContinuation_iff] at hthird
            have hbounds := secondAllowed_bounds hsecond
            rcases Piece.char.inj h with ⟨rfl, rfl⟩
            rw [utf8EncodeChar_ofNat (by unfold Nat.isValidChar; omega), if_neg (by omega),
              if_neg (by omega), if_pos (by omega), ofNat_eq (c := b.byteAt i) (by omega),
              ofNat_eq (c := b.byteAt (i + 1)) (by omega),
              ofNat_eq (c := b.byteAt (i + 2)) (by omega), fromPlace_of_byteAt hbounds.1,
              fromPlace_of_byteAt hthird.1]
            rfl
  · simp only [hw] at h
    split at h
    · cases h
    · next hsecond =>
        split at h
        · cases h
        · next hthird =>
            split at h
            · cases h
            · next hfourth =>
                rw [Bool.not_eq_true', Bool.not_eq_false] at hsecond hthird hfourth
                rw [isContinuation_iff] at hthird hfourth
                have hbounds := secondAllowed_bounds hsecond
                rcases Piece.char.inj h with ⟨rfl, rfl⟩
                rw [utf8EncodeChar_ofNat (by unfold Nat.isValidChar; omega), if_neg (by omega),
                  if_neg (by omega), if_neg (by omega), ofNat_eq (c := b.byteAt i) (by omega),
                  ofNat_eq (c := b.byteAt (i + 1)) (by omega),
                  ofNat_eq (c := b.byteAt (i + 2)) (by omega),
                  ofNat_eq (c := b.byteAt (i + 3)) (by omega), fromPlace_of_byteAt hbounds.1,
                  fromPlace_of_byteAt hthird.1, fromPlace_of_byteAt hfourth.1]
                rfl
  · rw [hw] at h
    cases h

/-!
# Texts
-/

/-- What has been read so far stays. -/
theorem mem_decodeFrom {b : Bytes} {c : Char} :
    forall (fuel i : Nat) (acc : String), c ∈ acc.toList -> c ∈ (b.decodeFrom i acc fuel).toList := by
  intro fuel
  induction fuel with
  | zero => exact fun _ _ h => h
  | succ fuel ih =>
      intro i acc h
      have hpush (d : Char) : c ∈ (acc.push d).toList := by
        rw [String.toList_push]
        exact List.mem_append_left _ h
      unfold decodeFrom
      split
      · split
        · exact ih _ _ (hpush _)
        · exact ih _ _ (hpush _)
      · exact h

/-- Where no piece is replaced, the rest is the encoding of the characters that are read. -/
theorem decodeFrom_whole {b : Bytes} :
    forall (fuel i : Nat) (acc : String), b.size ≤ i + fuel ->
      '\uFFFD' ∉ (b.decodeFrom i acc fuel).toList ->
      exists cs, (b.decodeFrom i acc fuel).toList = acc.toList ++ cs ∧
        b.fromPlace i = cs.flatMap String.utf8EncodeChar := by
  have hend {i : Nat} (h : b.size ≤ i) : b.fromPlace i = [] :=
    List.drop_eq_nil_of_le (by rw [Array.length_toList]; exact h)
  intro fuel
  -- each piece has a width, so that there is fuel for all bytes that are left
  induction fuel with
  | zero =>
      intro i acc hfuel _
      exact ⟨[], (List.append_nil _).symm, hend hfuel⟩
  | succ fuel ih =>
      intro i acc hfuel hclean
      unfold decodeFrom at hclean ⊢
      by_cases hi : i < b.size
      · rw [if_pos hi] at hclean ⊢
        cases hpiece : b.pieceAt i with
        | char c w =>
            rw [hpiece] at hclean
            have hrest := fromPlace_of_char hi hpiece
            have hwidth : 0 < w := by
              have hpositive := width_pieceAt_pos b i
              rwa [hpiece] at hpositive
            rcases ih (i + w) (acc.push c) (by omega) hclean with ⟨cs, htext, hbytes⟩
            refine ⟨c :: cs, ?_, ?_⟩
            · dsimp only
              rw [htext, String.toList_push, List.append_assoc]
              rfl
            · rw [hrest, hbytes]
              rfl
        | broken w =>
            rw [hpiece] at hclean
            refine absurd (mem_decodeFrom _ _ _ ?_) hclean
            rw [String.toList_push]
            exact List.mem_append_right _ (List.mem_singleton_self _)
      · rw [if_neg hi]
        exact ⟨[], (List.append_nil _).symm, hend (Nat.le_of_not_lt hi)⟩

/-- A text without replacement characters is what its own encoding is read as, and nothing else. -/
theorem toText_eq_iff {b : Bytes} {s : String} (hclean : '\uFFFD' ∉ s.toList) :
    b.toText = s ↔ b = s.toUTF8 := by
  constructor
  · rintro rfl
    unfold toText at hclean ⊢
    cases htext : String.fromUTF8? b with
    | some s => exact (fromUTF8?_eq htext).symm
    | none =>
        rw [htext] at hclean
        rcases decodeFrom_whole b.size 0 "" (by omega) hclean with ⟨cs, hchars, hbytes⟩
        have hencoded : b = (b.decodeFrom 0 "" b.size).toList.utf8Encode := by
          rw [hchars]
          show b = (cs.flatMap String.utf8EncodeChar).toByteArray
          rw [← hbytes]
          exact ByteArray.ext List.data_toByteArray.symm
        rw [String.utf8Encode_toList] at hencoded
        exact hencoded
  · rintro rfl
    exact toText_toUTF8 s

end LuaHost.Bytes
