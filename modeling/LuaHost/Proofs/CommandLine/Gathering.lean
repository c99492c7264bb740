import LuaHost.Proofs.CommandLine.Lines
import LuaHost.Proofs.CommandLine.Loading

/-!
# Lines that are gathered at the prompt

Each line is added to the text that is gathered, and the text is tried.  Whether a line
begins a new text is told from the gathered text being empty, so no line is lost as long
as the empty text is not called incomplete.  How texts are loaded does not matter here.
-/

namespace LuaHost

namespace CommandLine

open Machine World

/-!
# Prompts
-/

/-- Runs a text that was loaded and shows its results, or shows why it was not loaded. -/
def submit (t : ThreadId) (s : Status) : M Bool := do
  let s ← if s.isOk then callTraced t 0 multipleResults else pure s
  concludeText t (← takeMessage t s)

/-- Loads a text and submits it, unless it needs more lines. -/
def tryWith (t : ThreadId) (load : String → M Status) (text : String) : M Bool := do
  let s ← load text
  if ← isIncomplete t s then
    Interface.pop t 1
    return true
  submit t s

/-- Shows the prompt until the standard input ends. -/
def promptWith (t : ThreadId) (load : String → M Status) : M Unit := do
  let lines := (← Machine.outside).input.size + 1
  let _ ← ((consoleWith t (tryWith t load)).run "" lines).run ByteArray.empty
  writeText "\n"

theorem prompt_eq (t : ThreadId) : prompt t = promptWith t (loadLine t) := rfl

section Trying

variable {t : ThreadId} {load : String → M Status} {text : String} {w w' : World} {E : Engine}

/-- A text is called incomplete, and nothing is done with it. -/
def Rejects (E : Engine) (t : ThreadId) (load : String → M Status) (text : String) (w w' : World) :
    Prop :=
  exists s w₁ w₂, load text E w = .ok s w₁ ∧ isIncomplete t s E w₁ = .ok true w₂ ∧
    Interface.pop t 1 E w₂ = .ok () w'

/-- A text is not called incomplete, and is run or reported. -/
def Submits (E : Engine) (t : ThreadId) (load : String → M Status) (text : String) (w w' : World) :
    Prop :=
  exists s w₁ w₂, load text E w = .ok s w₁ ∧ isIncomplete t s E w₁ = .ok false w₂ ∧
    submit t s E w₂ = .ok false w'

theorem concludeText_ok {message : Except String Unit} {more : Bool}
    (h : concludeText t message E w = .ok more w') : more = false := by
  unfold concludeText at h
  cases message with
  | ok a =>
      rcases ok_bind h with ⟨_, w₁, _, hclear⟩
      rcases ok_bind hclear with ⟨_, w₂, _, hanswer⟩
      cases hanswer
      rfl
  | error message =>
      rcases ok_bind h with ⟨_, w₁, _, hclear⟩
      rcases ok_bind hclear with ⟨_, w₂, _, hanswer⟩
      cases hanswer
      rfl

theorem submit_ok {s : Status} {more : Bool} (h : submit t s E w = .ok more w') : more = false := by
  unfold submit at h
  split at h
  all_goals
    rcases ok_bind h with ⟨s', w₁, _, hrest⟩
    rcases ok_bind hrest with ⟨message, w₂, _, hconclude⟩
    exact concludeText_ok hconclude

theorem tryWith_ok {more : Bool} (h : tryWith t load text E w = .ok more w') :
    if more then Rejects E t load text w w' else Submits E t load text w w' := by
  rcases ok_bind h with ⟨s, w₁, hload, hrest⟩
  rcases ok_bind hrest with ⟨incomplete, w₂, hlook, hrest⟩
  cases incomplete with
  | true =>
      rcases ok_bind hrest with ⟨_, w₃, hpop, hanswer⟩
      cases hanswer
      exact ⟨s, w₁, w₂, hload, hlook, hpop⟩
  | false =>
      cases submit_ok hrest
      exact ⟨s, w₁, w₂, hload, hlook, hrest⟩

end Trying

/-!
# Turns
-/

/-- One turn at the prompt: the line that was read, the text that was tried, and whether it was
submitted. -/
structure Turn where
  line : String
  text : String
  complete : Bool

/-- The turns that are taken from one state of a dialogue to another: what is gathered, what is in
the buffer, and the world. -/
inductive Turns (E : Engine) (t : ThreadId) (load : String → M Status) :
    String → Bytes → World → List Turn → String → Bytes → World → Prop where
  | none {gathered : String} {b : Bytes} {w : World} :
      Turns E t load gathered b w [] gathered b w
  | rejected {gathered gathered' line : String} {b b₁ b' : Bytes} {w w₁ w₂ w' : World}
      {turns : List Turn} :
      Awaits t gathered b w (some line) b₁ w₁ →
      Rejects E t load (addLine gathered line) w₁ w₂ →
      Turns E t load (addLine gathered line) b₁ w₂ turns gathered' b' w' →
      Turns E t load gathered b w (⟨line, addLine gathered line, false⟩ :: turns) gathered' b' w'
  | submitted {gathered gathered' line : String} {b b₁ b' : Bytes} {w w₁ w₂ w' : World}
      {turns : List Turn} :
      Awaits t gathered b w (some line) b₁ w₁ →
      Submits E t load (addLine gathered line) w₁ w₂ →
      Turns E t load "" b₁ w₂ turns gathered' b' w' →
      Turns E t load gathered b w (⟨line, addLine gathered line, true⟩ :: turns) gathered' b' w'

/-- How a dialogue ends: there is nothing left to be read, or the next line is no text; or a text that
was tried has ended more than its own run. -/
inductive Ends (E : Engine) (t : ThreadId) (load : String → M Status) (gathered : String) (b : Bytes)
    (w : World) : Outcome (Unit × Bytes) → Prop where
  | closed {b' : Bytes} {w' : World} :
      Awaits t gathered b w none b' w' → (pending b w).Ended →
      Ends E t load gathered b w (.ok ((), b') w')
  | left {line : String} {b' : Bytes} {r : Raise} {w₁ w' : World} :
      Awaits t gathered b w (some line) b' w₁ →
      tryWith t load (addLine gathered line) E w₁ = .error r w' →
      Ends E t load gathered b w (.error r w')

section Turns

variable {t : ThreadId} {load : String → M Status} {gathered gathered' : String} {b b' : Bytes}
  {w w' : World} {turns : List Turn} {E : Engine}

/-- A dialogue of at most so many lines is a sequence of turns, at which the lines are used up or
after which it ends. -/
theorem run_turns (fuel : Nat) (gathered : String) (b : Bytes) (w : World) :
    exists turns gathered' b' w', Turns E t load gathered b w turns gathered' b' w' ∧
      (Ends E t load gathered' b' w'
          (((consoleWith t (tryWith t load)).run gathered fuel).run b E w) ∨
        turns.length = fuel ∧
          ((consoleWith t (tryWith t load)).run gathered fuel).run b E w = .ok ((), b') w') := by
  -- by induction on the lines that may still be read: a turn hands on what is gathered and what is
  -- in the buffer
  induction fuel generalizing gathered b w with
  | zero => exact ⟨[], gathered, b, w, .none, Or.inr ⟨rfl, rfl⟩⟩
  | succ fuel ih =>
      rcases exists_awaits t gathered b w with ⟨line?, b₁, w₁, hawaits⟩
      have hrun : ((consoleWith t (tryWith t load)).run gathered (fuel + 1)).run b E w =
          goOn t (tryWith t load) gathered fuel (line?, b₁) E w₁ :=
        (run_congr (run_succ t (tryWith t load) gathered fuel b)).trans (hawaits.run.andThen rfl)
      rw [hrun]
      cases line? with
      | none => exact ⟨[], gathered, b, w, .none, Or.inl (.closed hawaits hawaits.ended)⟩
      | some line =>
          cases htry : tryWith t load (addLine gathered line) E w₁ with
          | error r w₂ =>
              have hleft : goOn t (tryWith t load) gathered fuel (some line, b₁) E w₁ = .error r w₂ :=
                bind_of_error htry _
              rw [hleft]
              exact ⟨[], gathered, b, w, .none, Or.inl (.left hawaits htry)⟩
          | ok more w₂ =>
              have htried := tryWith_ok htry
              cases more with
              | true =>
                  rcases ih (addLine gathered line) b₁ w₂ with ⟨turns, g, b', w', hturns, hends⟩
                  have hmore : goOn t (tryWith t load) gathered fuel (some line, b₁) E w₁ =
                      ((consoleWith t (tryWith t load)).run (addLine gathered line) fuel).run b₁ E w₂ :=
                    ok_andThen htry rfl
                  rw [hmore]
                  exact ⟨_, g, b', w', .rejected hawaits htried hturns,
                    hends.imp_right fun h => ⟨congrArg (· + 1) h.1, h.2⟩⟩
              | false =>
                  rcases ih "" b₁ w₂ with ⟨turns, g, b', w', hturns, hends⟩
                  have hdone : goOn t (tryWith t load) gathered fuel (some line, b₁) E w₁ =
                      ((consoleWith t (tryWith t load)).run "" fuel).run b₁ E w₂ :=
                    ok_andThen htry rfl
                  rw [hdone]
                  exact ⟨_, g, b', w', .submitted hawaits htried hturns,
                    hends.imp_right fun h => ⟨congrArg (· + 1) h.1, h.2⟩⟩

end Turns

/-!
# Lines are used up
-/

/-- In the course of a dialogue a text is tried after which there is more of the standard input than
before. -/
def Refills (E : Engine) (t : ThreadId) (load : String → M Status) (gathered : String) (b : Bytes)
    (w : World) : Prop :=
  exists turns gathered' b₁ w₁ line b₂ w₂ w₃, Turns E t load gathered b w turns gathered' b₁ w₁ ∧
    Awaits t gathered' b₁ w₁ (some line) b₂ w₂ ∧
    (Rejects E t load (addLine gathered' line) w₂ w₃ ∨
      Submits E t load (addLine gathered' line) w₂ w₃) ∧
    w₂.outside.input.size < w₃.outside.input.size

section Refills

variable {t : ThreadId} {load : String → M Status} {gathered gathered' line : String}
  {b b₁ b' : Bytes} {w w₁ w₂ w' : World} {turns : List Turn} {E : Engine}

/-- At a turn there is less to be read afterwards, unless the text that was tried adds something. -/
theorem Awaits.pending_lt (h : Awaits t gathered b w (some line) b₁ w₁)
    (htried : Rejects E t load (addLine gathered line) w₁ w₂ ∨
      Submits E t load (addLine gathered line) w₁ w₂) :
    (pending b₁ w₂).size < (pending b w).size ∨ Refills E t load gathered b w := by
  by_cases hmore : w₁.outside.input.size < w₂.outside.input.size
  · exact Or.inr ⟨[], gathered, b, w, line, b₁, w₁, w₂, .none, h, htried, hmore⟩
  · have hlt := h.size_lt
    unfold pending at hlt ⊢
    rw [ByteArray.size_append, ByteArray.size_append] at hlt ⊢
    exact Or.inl (by omega)

theorem Refills.rejected (hawaits : Awaits t gathered b w (some line) b₁ w₁)
    (htried : Rejects E t load (addLine gathered line) w₁ w₂)
    (h : Refills E t load (addLine gathered line) b₁ w₂) : Refills E t load gathered b w := by
  rcases h with ⟨turns, g, c, u, line', c₁, u₁, u₂, hturns, hlater⟩
  exact ⟨_, g, c, u, line', c₁, u₁, u₂, .rejected hawaits htried hturns, hlater⟩

theorem Refills.submitted (hawaits : Awaits t gathered b w (some line) b₁ w₁)
    (htried : Submits E t load (addLine gathered line) w₁ w₂) (h : Refills E t load "" b₁ w₂) :
    Refills E t load gathered b w := by
  rcases h with ⟨turns, g, c, u, line', c₁, u₁, u₂, hturns, hlater⟩
  exact ⟨_, g, c, u, line', c₁, u₁, u₂, .submitted hawaits htried hturns, hlater⟩

/-- Every turn takes something of what can be read. -/
theorem Turns.length_le (h : Turns E t load gathered b w turns gathered' b' w') :
    turns.length + (pending b' w').size ≤ (pending b w).size ∨ Refills E t load gathered b w := by
  induction h with
  | none => exact Or.inl (Nat.le_of_eq (Nat.zero_add _))
  | rejected hawaits htried _ ih =>
      rcases hawaits.pending_lt (Or.inl htried) with hlt | hrefills
      · refine ih.imp (fun hle => ?_) (Refills.rejected hawaits htried)
        rw [List.length_cons]
        omega
      · exact Or.inr hrefills
  | submitted hawaits htried _ ih =>
      rcases hawaits.pending_lt (Or.inr htried) with hlt | hrefills
      · refine ih.imp (fun hle => ?_) (Refills.submitted hawaits htried)
        rw [List.length_cons]
        omega
      · exact Or.inr hrefills

end Refills

/-!
# Groups of lines
-/

def joinLines (lines : List String) : String := "\n".intercalate lines

/-- The turns at which lines are read after others, and the texts that they make up are rejected. -/
def waiting : List String → List String → List Turn
  | _, [] => []
  | earlier, line :: lines =>
    ⟨line, joinLines (earlier ++ [line]), false⟩ :: waiting (earlier ++ [line]) lines

/-- Lines that make up a text. -/
structure LineGroup where
  earlier : List String
  last : String

namespace LineGroup

def lines (g : LineGroup) : List String := g.earlier ++ [g.last]

/-- The turns at which the lines are read: only with the last one the text is submitted. -/
def turns (g : LineGroup) : List Turn := waiting [] g.earlier ++ [⟨g.last, joinLines g.lines, true⟩]

end LineGroup

/-- The turns are those of some groups, one after the other, and then of lines that make up no text
yet, which are what is gathered. -/
structure Grouped (turns : List Turn) (gathered : String) (groups : List LineGroup) (rest : List String) :
    Prop where
  turns_eq : turns = groups.flatMap LineGroup.turns ++ waiting [] rest
  gathered_eq : gathered = joinLines rest
  /-- The text that is tried next. -/
  next_eq (line : String) : addLine gathered line = joinLines (rest ++ [line])

theorem joinLines_snoc {lines : List String} (h : lines ≠ []) (line : String) :
    joinLines (lines ++ [line]) = joinLines lines ++ "\n" ++ line := by
  unfold joinLines
  induction lines with
  | nil => exact absurd rfl h
  | cons first lines ih =>
      cases lines with
      | nil =>
          rw [List.singleton_append, String.intercalate_cons_cons, String.intercalate_singleton,
            String.intercalate_singleton]
      | cons second lines =>
          have hrest := ih (List.cons_ne_nil second lines)
          rw [List.cons_append] at hrest
          rw [List.cons_append, List.cons_append, String.intercalate_cons_cons, hrest,
            String.intercalate_cons_cons, String.append_assoc, String.append_assoc,
            String.append_assoc, String.append_assoc, String.append_assoc]

theorem addLine_joinLines {lines : List String} (h : lines = [] ∨ joinLines lines ≠ "")
    (line : String) : addLine (joinLines lines) line = joinLines (lines ++ [line]) := by
  unfold addLine
  by_cases hnone : lines = []
  · subst hnone
    rfl
  · rcases h with hnil | htext
    · exact absurd hnil hnone
    · rw [if_neg (by rw [String.isEmpty_iff]; exact htext), joinLines_snoc hnone]

theorem waiting_snoc (earlier lines : List String) (line : String) :
    waiting earlier (lines ++ [line]) =
      waiting earlier lines ++ [⟨line, joinLines (earlier ++ lines ++ [line]), false⟩] := by
  induction lines generalizing earlier with
  | nil => simp only [waiting, List.nil_append, List.append_nil]
  | cons first lines ih =>
      rw [List.cons_append, waiting, waiting, ih, List.cons_append, List.append_assoc earlier [first],
        List.singleton_append]

theorem map_line_waiting (earlier lines : List String) :
    (waiting earlier lines).map Turn.line = lines := by
  induction lines generalizing earlier with
  | nil => rfl
  | cons line lines ih => exact congrArg (line :: ·) (ih _)

theorem filter_complete_waiting (earlier lines : List String) :
    (waiting earlier lines).filter Turn.complete = [] := by
  induction lines generalizing earlier with
  | nil => rfl
  | cons line lines ih => exact ih _

theorem LineGroup.map_line_turns (g : LineGroup) : g.turns.map Turn.line = g.lines := by
  unfold turns
  rw [List.map_append, map_line_waiting]
  rfl

theorem LineGroup.filter_complete_turns (g : LineGroup) :
    g.turns.filter Turn.complete = [⟨g.last, joinLines g.lines, true⟩] := by
  unfold turns
  rw [List.filter_append, filter_complete_waiting]
  rfl

section Grouped

variable {t : ThreadId} {load : String → M Status} {gathered gathered' : String} {b b' : Bytes}
  {w w' : World} {turns : List Turn} {E : Engine} {groups : List LineGroup} {rest : List String}

namespace Grouped

theorem lines_eq (h : Grouped turns gathered groups rest) :
    turns.map Turn.line = groups.flatMap LineGroup.lines ++ rest := by
  rw [h.turns_eq, List.map_append, map_line_waiting, List.map_flatMap]
  exact congrArg (fun f => groups.flatMap f ++ rest) (funext LineGroup.map_line_turns)

theorem submitted_eq (h : Grouped turns gathered groups rest) :
    (turns.filter Turn.complete).map Turn.text = groups.map fun g => joinLines g.lines := by
  rw [h.turns_eq, List.filter_append, filter_complete_waiting, List.append_nil]
  clear h
  induction groups with
  | nil => rfl
  | cons g groups ih =>
      rw [List.flatMap_cons, List.filter_append, List.map_append, ih, g.filter_complete_turns]
      rfl

theorem cons (h : Grouped turns gathered groups rest) (g : LineGroup) :
    Grouped (g.turns ++ turns) gathered (g :: groups) rest := by
  refine ⟨?_, h.gathered_eq, h.next_eq⟩
  rw [h.turns_eq, List.flatMap_cons, List.append_assoc]

end Grouped

/-- If no text that is rejected is empty, the gathered text is empty only between two groups. -/
theorem Turns.grouped (h : Turns E t load gathered b w turns gathered' b' w')
    (hrejected : forall turn, turn ∈ turns -> turn.complete = false -> turn.text ≠ "")
    {earlier : List String} (hgathered : gathered = joinLines earlier)
    (hearlier : earlier = [] ∨ gathered ≠ "") :
    exists groups rest, Grouped (waiting [] earlier ++ turns) gathered' groups rest := by
  induction h generalizing earlier with
  | none =>
      subst hgathered
      exact ⟨[], earlier, List.append_nil _, rfl, addLine_joinLines hearlier⟩
  | @rejected gathered gathered' line b b₁ b' w w₁ w₂ w' turns hawaits htried _ ih =>
      subst hgathered
      have htext := addLine_joinLines hearlier line
      have hne := hrejected _ List.mem_cons_self rfl
      rcases ih (fun turn hturn => hrejected turn (List.mem_cons_of_mem _ hturn)) htext (Or.inr hne)
        with ⟨groups, rest, hgrouped⟩
      rw [waiting_snoc, List.append_assoc, List.singleton_append, List.nil_append, ← htext] at hgrouped
      exact ⟨groups, rest, hgrouped⟩
  | @submitted gathered gathered' line b b₁ b' w w₁ w₂ w' turns hawaits htried _ ih =>
      subst hgathered
      have htext := addLine_joinLines hearlier line
      rcases ih (fun turn hturn => hrejected turn (List.mem_cons_of_mem _ hturn)) rfl (Or.inl rfl)
        with ⟨groups, rest, hgrouped⟩
      have hcons := hgrouped.cons ⟨earlier, line⟩
      unfold LineGroup.turns LineGroup.lines at hcons
      rw [← htext, List.append_assoc] at hcons
      exact ⟨⟨earlier, line⟩ :: groups, rest, hcons⟩

end Grouped

/-!
# Dialogues
-/

/-- The prompt is left with a line break. -/
def parted : Outcome (Unit × Bytes) → Outcome Unit
  | .ok _ w => .ok () { w with outside := w.outside.writeThrough "\n".toUTF8 }
  | .error r w => .error r w

section Dialogues

variable {t : ThreadId} {load : String → M Status} {w : World} {E : Engine}

theorem promptWith_parted (w : World) : promptWith t load E w =
    parted (((consoleWith t (tryWith t load)).run "" (w.outside.input.size + 1)).run
      ByteArray.empty E w) := by
  have hread : Returns Machine.outside w w.outside w := fun _ => rfl
  refine (hread.andThen rfl).trans ?_
  cases hrun : (((consoleWith t (tryWith t load)).run "" (w.outside.input.size + 1)).run
      ByteArray.empty : M (Unit × Bytes)) E w with
  | ok a w' => exact ok_andThen hrun (returns_writeText w' "\n" E)
  | error r w' => exact bind_of_error hrun _

/-- What becomes of the lines that are read at the prompt: the turns that are taken, the state that
they lead to, and what the prompt comes to. -/
structure Gathers (E : Engine) (t : ThreadId) (load : String → M Status) (w : World)
    (turns : List Turn) (gathered : String) (b : Bytes) (w' : World) (o : Outcome Unit) : Prop where
  taken : Turns E t load "" ByteArray.empty w turns gathered b w'
  /-- If the empty text was never called incomplete, lines were submitted in groups. -/
  grouped : (forall turn, turn ∈ turns -> turn.complete = false -> turn.text ≠ "") ->
    exists groups rest, Grouped turns gathered groups rest ∧
      turns.map Turn.line = groups.flatMap LineGroup.lines ++ rest ∧
      (turns.filter Turn.complete).map Turn.text = groups.map fun g => joinLines g.lines
  /-- The lines have ended, unless something was put back. -/
  ended : (exists x, Ends E t load gathered b w' x ∧ o = parted x) ∨
    Refills E t load "" ByteArray.empty w

theorem promptWith_gathers (E : Engine) (t : ThreadId) (load : String → M Status) (w : World) :
    exists turns gathered b w', Gathers E t load w turns gathered b w' (promptWith t load E w) := by
  rcases run_turns (w.outside.input.size + 1) "" ByteArray.empty w with
    ⟨turns, gathered, b, w', hturns, hends⟩
  refine ⟨turns, gathered, b, w', hturns, fun hrejected => ?_, ?_⟩
  · rcases hturns.grouped hrejected rfl (Or.inl rfl) with ⟨groups, rest, hgrouped⟩
    exact ⟨groups, rest, hgrouped, hgrouped.lines_eq, hgrouped.submitted_eq⟩
  · rcases hends with hends | ⟨hlength, _⟩
    · exact Or.inl ⟨_, hends, promptWith_parted w⟩
    · -- as many lines were read as there were bytes, and one more
      refine Or.inr (hturns.length_le.resolve_left fun hle => ?_)
      unfold pending at hle
      rw [hlength, ByteArray.size_append, ByteArray.size_append, ByteArray.size_empty] at hle
      omega

/-!
# The loader of the machine
-/

theorem compiles_empty (h : (w.thread t).nesting + 1 < maxNesting) :
    exists p, Compiles w t ("return " ++ "" ++ ";").toUTF8 (Interface.cutName "=stdin") p := by
  have hall : forall n, n < maxNesting - 1 -> (compileText ("return " ++ "" ++ ";").toUTF8
      (Interface.cutName "=stdin") (maxNesting - 1 - n)).isOk = true := by decide +kernel
  have hok := hall _ (Nat.lt_sub_of_add_lt h)
  cases hcompile : compileText ("return " ++ "" ++ ";").toUTF8 (Interface.cutName "=stdin")
      (maxNesting - 1 - (w.thread t).nesting) with
  | ok p => exact ⟨p, .text (by decide) hcompile⟩
  | error f =>
      rw [hcompile] at hok
      cases hok

/-- The empty text is an expression without values, and so it is complete. -/
theorem not_rejects_empty {base : Nat} {us : List Value} {w' : World} (h : w.Stands t base us)
    (hnest : (w.thread t).nesting + 1 < maxNesting) : ¬ Rejects E t (loadLine t) "" w w' := by
  rintro ⟨s, w₁, w₂, hload, hlook, _⟩
  rcases compiles_empty hnest with ⟨p, hcompiles⟩
  rcases ok_bind hload with ⟨s', u, hfirst, hrest⟩
  have hroom : (w.thread t).top + 1 ≤ (w.thread t).limit := by
    refine Nat.le_of_not_lt fun hover => ?_
    rcases ok_bind hfirst with ⟨a, v, hreserve, _⟩
    exact (Interface.needs_reserve h.live (by decide)).stops hover E a v hreserve
  rcases returns_loadBuffer h hroom hcompiles with ⟨c, v, hloaded, _⟩
  rcases hloaded.ok_eq hfirst with ⟨rfl, rfl⟩
  cases hrest
  cases hlook

/-- However texts are loaded, the lines that are read at the prompt are submitted in groups, unless
the empty text is called incomplete; and the loader of the machine does not call it that. -/
theorem lines_grouped (E : Engine) (t : ThreadId) :
    (forall load w, exists turns gathered b w',
      Gathers E t load w turns gathered b w' (promptWith t load E w)) ∧
    prompt t = promptWith t (loadLine t) ∧
    forall base us w w', w.Stands t base us -> (w.thread t).nesting + 1 < maxNesting ->
      ¬ Rejects E t (loadLine t) "" w w' :=
  ⟨promptWith_gathers E t, prompt_eq t, fun _ _ _ _ h hnest => not_rejects_empty h hnest⟩

end Dialogues

end CommandLine

end LuaHost
