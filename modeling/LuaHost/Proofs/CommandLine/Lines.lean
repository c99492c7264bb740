import LuaHost.Proofs.CommandLine.Prompting

/-!
# Lines of the standard input

The prompt takes the standard input block by block and reads it line by line.  What it
has taken and not read yet stays in its buffer, so a line is the first one of the
buffer and what nobody has taken, and the others are still to be read.
-/

namespace LuaHost

/-!
# The first line of some bytes
-/

namespace Bytes

variable {b c : Bytes} {p : UInt8 → Bool} {i k m n : Nat}

theorem byteAt_append (h : i < b.size) (c : Bytes) : (b ++ c).byteAt i = b.byteAt i := by
  have hlong : i < (b ++ c).size := by
    rw [ByteArray.size_append]
    omega
  unfold byteAt
  rw [dif_pos h, dif_pos hlong]
  exact ByteArray.getElem_append_left h

theorem go_bounds (h : findByte?.go b p i n = some k) : i ≤ k ∧ k < i + n := by
  induction n generalizing i with
  | zero => cases h
  | succ n ih =>
      unfold findByte?.go at h
      split at h
      · cases h
        omega
      · have hrest := ih h
        omega

theorem go_append (h : findByte?.go b p i n = some k) (hin : i + n ≤ b.size) (hnm : n ≤ m)
    (c : Bytes) : findByte?.go (b ++ c) p i m = some k := by
  induction n generalizing i m with
  | zero => cases h
  | succ n ih =>
      cases m with
      | zero => cases hnm
      | succ m =>
          unfold findByte?.go at h ⊢
          rw [byteAt_append (by omega)]
          split at h
          · next hfound =>
            rw [if_pos hfound]
            exact h
          · next hother =>
            rw [if_neg hother]
            exact ih h (by omega) (Nat.le_of_succ_le_succ hnm)

/-- Where the first line ends, with its end. -/
def lineEnd (b : Bytes) : Nat :=
  match b.findByte? (· == 10) 0 with
  | some i => i + 1
  | none => b.size

theorem lineEnd_le (b : Bytes) : b.lineEnd ≤ b.size := by
  unfold lineEnd
  split
  · next i hfound =>
    have hbounds := go_bounds hfound
    omega
  · exact Nat.le_refl _

theorem lineEnd_eq_zero_iff : b.lineEnd = 0 ↔ b.size = 0 := by
  refine ⟨fun h => ?_, fun h => Nat.le_zero.mp (h ▸ b.lineEnd_le)⟩
  unfold lineEnd at h
  split at h
  · cases h
  · exact h

theorem lineEnd_append (h : (b.findByte? (· == 10) 0).isSome = true) (c : Bytes) :
    (b ++ c).lineEnd = b.lineEnd := by
  rcases Option.isSome_iff_exists.mp h with ⟨i, hfound⟩
  have hboth : (b ++ c).findByte? (· == 10) 0 = some i := by
    refine go_append hfound (by omega) ?_ c
    rw [ByteArray.size_append]
    omega
  unfold lineEnd
  rw [hfound, hboth]

/-- The text of the first line, if there is a line, and if it is a text. -/
def firstLine? (b : Bytes) : Option String :=
  if b.lineEnd = 0 then none
  else String.fromUTF8? (CommandLine.dropLineEnd (b.extract 0 b.lineEnd))

/-- The lines after the first one. -/
def otherLines (b : Bytes) : Bytes := b.extract b.lineEnd b.size

/-- There are no more lines, or the first one is no text. -/
def Ended (b : Bytes) : Prop :=
  b.size = 0 ∨ String.fromUTF8? (CommandLine.dropLineEnd (b.extract 0 b.lineEnd)) = none

theorem firstLine?_eq_none_iff : b.firstLine? = none ↔ b.Ended := by
  unfold firstLine? Ended
  by_cases hend : b.lineEnd = 0
  · rw [if_pos hend]
    exact ⟨fun _ => Or.inl (lineEnd_eq_zero_iff.mp hend), fun _ => rfl⟩
  · rw [if_neg hend]
    refine ⟨Or.inr, ?_⟩
    rintro (hsize | hnone)
    · exact absurd (lineEnd_eq_zero_iff.mpr hsize) hend
    · exact hnone

theorem size_otherLines (h : b.firstLine?.isSome = true) : b.otherLines.size < b.size := by
  have hend : b.lineEnd ≠ 0 := by
    intro hend
    unfold firstLine? at h
    rw [if_pos hend] at h
    cases h
  have hle := b.lineEnd_le
  unfold otherLines
  rw [ByteArray.size_extract]
  omega

/-- The first line is in the buffer, if a line ends there or if there is nothing else. -/
theorem lineEnd_buffered
    (h : (b.findByte? (· == 10) 0).isSome = true ∨ c = ByteArray.empty) :
    (b ++ c).lineEnd = b.lineEnd := by
  rcases h with hwhole | rfl
  · exact lineEnd_append hwhole c
  · rw [ByteArray.append_empty]

theorem extract_append_left (h : n ≤ b.size) (c : Bytes) :
    (b ++ c).extract 0 n = b.extract 0 n := by
  rw [ByteArray.extract_append, Nat.zero_sub, Nat.sub_eq_zero_of_le h, ByteArray.extract_same,
    ByteArray.append_empty]

theorem extract_of_size_le (hi : i ≤ b.size) (hn : b.size ≤ n) :
    b.extract i n = b.extract i b.size := by
  have hbeyond : b.extract b.size n = ByteArray.empty :=
    ByteArray.extract_eq_empty_iff.mpr (Nat.min_le_right _ _)
  rw [ByteArray.extract_eq_extract_append_extract b.size hi hn, hbeyond, ByteArray.append_empty]

theorem extract_append_right (h : n ≤ b.size) (c : Bytes) :
    (b ++ c).extract n (b ++ c).size = b.extract n b.size ++ c := by
  rw [ByteArray.extract_append, ByteArray.size_append, Nat.sub_eq_zero_of_le h,
    Nat.add_sub_cancel_left, ByteArray.extract_zero_size,
    extract_of_size_le h (Nat.le_add_right _ _)]

/-- Bytes that are cut in two, maybe past their end. -/
theorem extract_append_rest (b : Bytes) (n : Nat) :
    b.extract 0 n ++ b.extract n b.size = b := by
  rw [ByteArray.extract_append_extract, Nat.zero_min,
    extract_of_size_le (Nat.zero_le _) (Nat.le_max_right _ _), ByteArray.extract_zero_size]

end Bytes

/-!
# The standard input
-/

/-- The world with something else left of the standard input. -/
def World.withInput (w : World) (b : Bytes) : World :=
  { w with outside := { w.outside with input := b } }

theorem World.withInput_withInput (w : World) (b c : Bytes) :
    (w.withInput b).withInput c = w.withInput c := rfl

namespace CommandLine

open Machine World

variable {w : World} {b : Bytes} {fuel : Nat}

/-- What the prompt can still read: what is in its buffer, and what nobody has taken. -/
def pending (b : Bytes) (w : World) : Bytes := b ++ w.outside.input

/-- Blocks are taken until the first line is in the buffer, and none is lost. -/
theorem returns_gatherLine (b : Bytes) (hfuel : w.outside.input.size < fuel) :
    exists b' rest, Returns (gatherLine b fuel) w b' (w.withInput rest) ∧ b' ++ rest = pending b w ∧
      ((b'.findByte? (· == 10) 0).isSome = true ∨ rest = ByteArray.empty) := by
  -- a block that is not empty leaves less of the input than there is fuel
  induction fuel generalizing b w with
  | zero => exact absurd hfuel (Nat.not_lt_zero _)
  | succ fuel ih =>
      have hpos : 0 < lineBlock := by decide
      unfold gatherLine
      generalize lineBlock = n at hpos ⊢
      by_cases hwhole : (b.findByte? (· == 10) 0).isSome = true
      · rw [if_pos hwhole]
        exact ⟨b, w.outside.input, Returns.pure b w, rfl, Or.inl hwhole⟩
      · rw [if_neg hwhole]
        have hread : Returns Machine.outside w w.outside w := fun _ => rfl
        have hsize : (w.outside.input.extract 0 n).size = min n w.outside.input.size :=
          ByteArray.size_extract
        by_cases hended : (w.outside.input.extract 0 n).size = 0
        · have hempty : w.outside.input = ByteArray.empty :=
            ByteArray.size_eq_zero_iff.mp (by omega)
          refine ⟨b, w.outside.input, Returns.bind hread ?_, rfl, Or.inr hempty⟩
          dsimp only [Outside.take]
          rw [if_pos (beq_iff_eq.mpr hended)]
          exact Returns.pure b w
        · have hshort : (w.outside.input.extract n w.outside.input.size).size < fuel := by
            rw [ByteArray.size_extract]
            omega
          have htake : Returns (Machine.modifyOutside fun _ => (w.outside.take n).2) w ()
              (w.withInput (w.outside.input.extract n w.outside.input.size)) := returns_modify _ w
          rcases ih (w := w.withInput (w.outside.input.extract n w.outside.input.size))
            (b ++ w.outside.input.extract 0 n) hshort with ⟨b', rest, hrun, hrest, hline⟩
          rw [withInput_withInput] at hrun
          refine ⟨b', rest, Returns.bind hread ?_, ?_, hline⟩
          · dsimp only [Outside.take]
            rw [if_neg (by rw [beq_iff_eq]; exact hended)]
            exact Returns.bind htake hrun
          · rw [hrest]
            unfold pending
            show b ++ w.outside.input.extract 0 n ++
              w.outside.input.extract n w.outside.input.size = b ++ w.outside.input
            rw [ByteArray.append_assoc, Bytes.extract_append_rest]

theorem returns_nextLine (b : Bytes) (w : World) :
    exists b' rest, Returns (nextLine.run b) w ((pending b w).firstLine?, b') (w.withInput rest) ∧
      b' ++ rest = (pending b w).otherLines := by
  rcases returns_gatherLine b (Nat.lt_succ_self w.outside.input.size) with
    ⟨c, rest, hgather, hall, hline⟩
  have hend := Bytes.lineEnd_buffered hline
  have hfirst : (pending b w).firstLine? =
      if c.lineEnd = 0 then none else String.fromUTF8? (dropLineEnd (c.extract 0 c.lineEnd)) := by
    rw [← hall]
    unfold Bytes.firstLine?
    rw [hend, Bytes.extract_append_left c.lineEnd_le]
  have hothers : (pending b w).otherLines = c.extract c.lineEnd c.size ++ rest := by
    rw [← hall]
    unfold Bytes.otherLines
    rw [hend, Bytes.extract_append_right c.lineEnd_le]
  refine ⟨c.extract c.lineEnd c.size, rest, ?_, hothers.symm⟩
  unfold nextLine
  simp only [StateT.run_bind, StateT.run_get, StateT.run_monadLift, StateT.run_set, bind_assoc,
    pure_bind]
  refine Returns.bind (a := w.outside) (fun _ => rfl) (Returns.bind hgather ?_)
  rw [hfirst]
  show Returns ((if (c.lineEnd == 0) = true then pure none
      else pure (String.fromUTF8? (dropLineEnd (c.extract 0 c.lineEnd))) :
    StateT Bytes M (Option String)).run (c.extract c.lineEnd c.size)) _ _ _
  by_cases hnone : c.lineEnd = 0
  · rw [if_pos hnone, if_pos (beq_iff_eq.mpr hnone)]
    exact Returns.pure _ _
  · rw [if_neg hnone, if_neg (by rw [beq_iff_eq]; exact hnone)]
    exact Returns.pure _ _

/-- What is shown before a line is read. -/
def promptText (gathered : String) : String := if gathered.isEmpty then "> " else ">> "

/-- The next line is read: the first one of those that can be read.  The others can still be read
afterwards, and nothing else has changed but that the prompt was shown. -/
structure Awaits (t : ThreadId) (gathered : String) (b : Bytes) (w : World) (line? : Option String)
    (b' : Bytes) (w' : World) : Prop where
  run : Returns (awaitLine t gathered b) w (line?, b') w'
  line_eq : line? = (pending b w).firstLine?
  others_eq : pending b' w' = (pending b w).otherLines
  world_eq : w' = { w with
    outside := { w.outside with
      input := w'.outside.input
      output := w.outside.output ++ (promptText gathered).toUTF8 } }

theorem exists_awaits (t : ThreadId) (gathered : String) (b : Bytes) (w : World) :
    exists line? b' w', Awaits t gathered b w line? b' w' := by
  have htext : (if (!gathered.isEmpty) = true then ">> " else "> ") = promptText gathered := by
    unfold promptText
    cases gathered.isEmpty <;> rfl
  let shown : World :=
    { w with outside := w.outside.writeThrough (promptText gathered).toUTF8 }
  rcases returns_nextLine b shown with ⟨b', rest, hread, hothers⟩
  refine ⟨_, b', shown.withInput rest, ?_, rfl, hothers, rfl⟩
  unfold awaitLine console
  simp only [StateT.run_bind, StateT.run_monadLift, bind_assoc, pure_bind, htext]
  exact Returns.bind (returns_writeText w (promptText gathered)) hread

theorem Awaits.ended {t : ThreadId} {gathered : String} {b' : Bytes} {w' : World}
    (h : Awaits t gathered b w none b' w') : (pending b w).Ended :=
  Bytes.firstLine?_eq_none_iff.mp h.line_eq.symm

/-- Reading a line leaves less to be read. -/
theorem Awaits.size_lt {t : ThreadId} {gathered line : String} {b' : Bytes} {w' : World}
    (h : Awaits t gathered b w (some line) b' w') :
    (pending b' w').size < (pending b w).size := by
  rw [h.others_eq]
  exact Bytes.size_otherLines (by rw [← h.line_eq]; rfl)

end CommandLine

end LuaHost
