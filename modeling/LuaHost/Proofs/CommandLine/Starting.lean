import LuaHost.Proofs.CommandLine.Prompting
import LuaHost.Proofs.Interface.Launching

/-!
# Before the prompt

A chunk that is run for its results leaves them on the stack, and so do the file
that the environment names, the script and the standard input.  Nothing else that
is carried out before the prompt leaves anything there.
-/

namespace LuaHost

namespace CommandLine

open Machine World
open Interface (closeMachine loadBuffer openMachine pushString launched_opened worldIn)

section Chunks

variable {t : ThreadId} {base : Nat} {us vs : List Value} {w w' : World} {E : Engine}
  {a : Except String Unit}

/-- What a chunk leaves on a stack with the values `us`: its results above them, if it succeeds. -/
inductive Leaves (t : ThreadId) (base : Nat) (us : List Value) : Except String Unit → World → Prop where
  | results {results : List Value} {w : World} :
      w.Stands t base (us ++ results) → Leaves t base us (.ok ()) w
  | nothing {message : String} {w : World} : w.Stands t base us → Leaves t base us (.error message) w

theorem nothing_left (h : w.Stands t base (us ++ vs)) (hus : w.Stands t base us) : vs = [] := by
  have hvalues := h.shows.values_eq.symm.trans hus.shows.values_eq
  rw [← List.append_nil us, List.append_assoc, List.nil_append] at hvalues
  exact List.append_cancel_left hvalues

theorem leaves_of_stands (h : w.Stands t base us) (a : Except String Unit) : Leaves t base us a w := by
  cases a with
  | error message => exact .nothing h
  | ok =>
      rw [← List.append_nil us] at h
      exact .results h

theorem pushString_ok (h : w.Stands t base us) {text : String}
    (hrun : pushString t text E w = .ok () w') : w'.Stands t base (us ++ [.ofText text]) :=
  h.loaded ((Interface.needs_pushNew h.live (.ofText text)).of_ok hrun)

theorem pushStrings_ok (arguments : List String) (h : w.Stands t base us)
    (hrun : arguments.forM (pushString t) E w = .ok () w') :
    w'.Stands t base (us ++ arguments.map .ofText) := by
  induction arguments generalizing us w with
  | nil =>
      cases hrun
      rw [List.map_nil, List.append_nil]
      exact h
  | cons text arguments ih =>
      rcases ok_bind hrun with ⟨_, w₁, hpush, hrest⟩
      have hstands := ih (pushString_ok h hpush) hrest
      rw [List.append_assoc] at hstands
      exact hstands

theorem runWith_leaves (hE : E.Sparing) (h : w.Stands t base us) {chunk : Bytes} {name : String}
    {arguments : List String} (hrun : runWith t chunk name arguments E w = .ok a w') :
    Leaves t base us a w' := by
  rcases ok_bind hrun with ⟨s, w₁, hload, hrest⟩
  rcases loadBuffer_ends hE h hload with ⟨rfl, c, hstands⟩ | ⟨x, hs, hstands⟩
  · have hcalls : (do
        arguments.forM (pushString t)
        let s ← callTraced t arguments.length multipleResults
        takeMessage t s : M (Except String Unit)) E w₁ = .ok a w' := hrest
    rcases ok_bind hcalls with ⟨_, w₂, hpush, hcalls⟩
    rcases ok_bind hcalls with ⟨s, w₃, hcall, htake⟩
    have hpushed := pushStrings_ok arguments hstands hpush
    rw [List.append_assoc, List.singleton_append] at hpushed
    have hcount : (arguments.map Value.ofText).length = arguments.length := List.length_map Value.ofText
    rw [← hcount] at hcall
    rcases callTraced_ends hE hpushed hcall with ⟨rfl, results, _, hresults⟩ | ⟨x, hs, hobject⟩
    · cases htake
      exact .results hresults
    · rcases returns_takeMessage hobject hs with ⟨w₄, hmessage, hkept, _⟩
      rcases hmessage.ok_eq htake with ⟨rfl, rfl⟩
      exact .nothing hkept
  · have htake := (Returns.pure s w₁).ok_bind ((run_congr (if_neg (not_isOk hs))).symm.trans hrest)
    rcases returns_takeMessage hstands hs with ⟨w₂, hmessage, hkept, _⟩
    rcases hmessage.ok_eq htake with ⟨rfl, rfl⟩
    exact .nothing hkept

theorem runFile_leaves (hE : E.Sparing) (h : w.Stands t base us) {name : String}
    {arguments : List String} (hrun : runFile t name arguments E w = .ok a w') :
    Leaves t base us a w' := by
  rcases ok_bind hrun with ⟨o, w₁, hread, hrest⟩
  cases hread
  cases hopen : w.outside.openRead name with
  | ok b =>
      rw [hopen] at hrest
      exact runWith_leaves hE h hrest
  | error f =>
      rw [hopen] at hrest
      cases hrest
      exact .nothing h

theorem runInput_leaves (hE : E.Sparing) (h : w.Stands t base us) {arguments : List String}
    (hrun : runInput t arguments E w = .ok a w') : Leaves t base us a w' := by
  rcases aside_outside w with ⟨o, o', hread⟩
  have hrest := hread.ok_bind hrun
  rcases aside_outside ({ w with outside := o' } : World) with ⟨o₁, o₂, hread₁⟩
  have hrest := hread₁.ok_bind hrest
  have hwith := (returns_modify _ _).ok_bind hrest
  exact runWith_leaves hE (stands_outside (stands_outside (stands_outside h _) _) _) hwith

theorem runChunk_stands (hE : E.Sparing) (h : w.Stands t base us) {chunk : Bytes} {name : String}
    (hrun : runChunk t chunk name E w = .ok a w') : w'.Stands t base us := by
  have hruns := runChunk_runs hE h chunk name
  rw [hrun] at hruns
  exact hruns.stands

end Chunks

/-!
# The order of things
-/

section Order

variable {t : ThreadId} {base : Nat} {us vs : List Value} {w w₀ w' : World} {E : Engine} {o : Options}
  {a : Except String Unit}

/-- The environment gives no chunk that is to be read from a file. -/
def Fileless (environment : List (String × String)) : Prop :=
  forall name chunk, initialChunk? environment = some (name, chunk) → chunk.toList.head? ≠ some '@'

/-- Runs the chunk that the environment gives under a name, or the file that it names. -/
def runInitial (t : ThreadId) (name chunk : String) : M (Except String Unit) :=
  match chunk.toList with
  | '@' :: file => runFile t (String.ofList file) []
  | _ => runChunk t chunk.toUTF8 ("=" ++ name)

theorem runInitial_kinds (t : ThreadId) (name chunk : String) :
    (exists file, chunk.toList = '@' :: file ∧
        runInitial t name chunk = runFile t (String.ofList file) []) ∨
      runInitial t name chunk = runChunk t chunk.toUTF8 ("=" ++ name) := by
  unfold runInitial
  split
  · next file hfile => exact Or.inl ⟨file, hfile, rfl⟩
  · exact Or.inr rfl

theorem runInitialChunk_leaves (hE : E.Sparing) (h : w.Stands t base us)
    (hrun : runInitialChunk t E w = .ok a w') :
    Leaves t base us a w' ∧ (Fileless w.outside.environment → w'.Stands t base us) := by
  rcases ok_bind hrun with ⟨o, w₁, hread, hrest⟩
  cases hread
  cases hchunk : initialChunk? w.outside.environment with
  | none =>
      rw [hchunk] at hrest
      cases hrest
      exact ⟨leaves_of_stands h _, fun _ => h⟩
  | some named =>
      rcases named with ⟨name, chunk⟩
      rw [hchunk] at hrest
      have hrest : runInitial t name chunk E w = .ok a w' := hrest
      rcases runInitial_kinds t name chunk with ⟨file, hfile, hkind⟩ | hkind
      · refine ⟨runFile_leaves hE h ((run_congr hkind).symm.trans hrest), fun hfileless => ?_⟩
        have hnamed := hfileless name chunk hchunk
        rw [hfile] at hnamed
        exact absurd rfl hnamed
      · have hstands := runChunk_stands hE h ((run_congr hkind).symm.trans hrest)
        exact ⟨leaves_of_stands hstands _, fun _ => hstands⟩

theorem ok_bind_except {α β : Type} {x : ExceptT String M α} {f : α → ExceptT String M β} {b : β}
    (h : (x >>= f).run E w = .ok (.ok b) w') :
    exists a w₁, x.run E w = .ok (.ok a) w₁ ∧ (f a).run E w₁ = .ok (.ok b) w' := by
  rcases ok_bind h with ⟨r, w₁, hx, hf⟩
  cases r with
  | error e => cases hf
  | ok a => exact ⟨a, w₁, hx, hf⟩

/-- Neither the environment nor the command line names a file to be run, and the standard input is
left to the prompt. -/
structure Interactive (o : Options) (environment : List (String × String)) : Prop where
  script_eq : o.script = none
  input_eq : o.readInput = false
  fileless : o.ignoreEnvironment = true ∨ Fileless environment

theorem statements_stand (hE : E.Sparing) (statements : List String) (h : w.Stands t base us)
    (hrun : (statements.forM fun s => ExceptT.mk (runStatement t s) : ExceptT String M Unit).run E w =
      .ok (.ok ()) w') : w'.Stands t base us := by
  induction statements generalizing w with
  | nil =>
      cases hrun
      exact h
  | cons statement statements ih =>
      have hrun : (ExceptT.mk (runStatement t statement) >>= fun _ =>
          statements.forM fun s => ExceptT.mk (runStatement t s) : ExceptT String M Unit).run E w =
            .ok (.ok ()) w' := hrun
      rcases ok_bind_except hrun with ⟨_, w₁, hfirst, hrest⟩
      exact ih (runChunk_stands hE h hfirst) hrest

theorem runScript_leaves (hE : E.Sparing) (h : w.Stands t base us)
    (hrun : runScript t o E w = .ok a w') : Leaves t base us a w' := by
  unfold runScript at hrun
  cases hscript : o.script with
  | some name =>
      rw [hscript] at hrun
      exact runFile_leaves hE h hrun
  | none =>
      rw [hscript] at hrun
      cases hinput : o.readInput with
      | true =>
          rw [hinput] at hrun
          exact runInput_leaves hE h hrun
      | false =>
          rw [hinput] at hrun
          cases hrun
          exact leaves_of_stands h _

theorem runChunks_stands (hE : E.Sparing) (h : w.Stands t base us)
    (hrun : (runChunks t o).run E w = .ok (.ok ()) w') :
    exists vs, w'.Stands t base (us ++ vs) ∧ (Interactive o w.outside.environment → vs = []) := by
  have hinitial : exists vs w₁, w₁.Stands t base (us ++ vs) ∧
      (o.ignoreEnvironment = true ∨ Fileless w.outside.environment → vs = []) ∧ (do
        o.statements.forM fun s => ExceptT.mk (runStatement t s)
        ExceptT.mk (runScript t o) : ExceptT String M Unit).run E w₁ = .ok (.ok ()) w' := by
    unfold runChunks at hrun
    cases hignore : o.ignoreEnvironment with
    | true =>
        rw [hignore] at hrun
        exact ⟨[], w, (List.append_nil us).symm ▸ h, fun _ => rfl, hrun⟩
    | false =>
        rw [hignore] at hrun
        rcases ok_bind_except hrun with ⟨_, w₁, hfirst, hrest⟩
        rcases runInitialChunk_leaves hE h hfirst with ⟨hleaves, hfileless⟩
        cases hleaves with
        | @results vs w₁ hstands =>
            refine ⟨vs, w₁, hstands, fun hnone => ?_, hrest⟩
            rcases hnone with hnever | hnone
            · cases hnever
            · exact nothing_left hstands (hfileless hnone)
  -- statements leave nothing, so that what is left comes from the initial chunk and the script
  rcases hinitial with ⟨vs, w₁, hstands, hnone, hrest⟩
  rcases ok_bind_except hrest with ⟨_, w₂, hstatements, hscript⟩
  have hstands₂ := statements_stand hE o.statements hstands hstatements
  have hleaves := runScript_leaves hE hstands₂ hscript
  cases hleaves with
  | @results rs w' hstands' =>
      rw [List.append_assoc] at hstands'
      refine ⟨vs ++ rs, hstands', fun hinteractive => ?_⟩
      have hvs := hnone hinteractive.fileless
      rw [hvs, List.append_nil] at hstands₂
      rw [hvs, List.nil_append] at hstands' ⊢
      refine nothing_left hstands' ?_
      have hscript : runScript t o E w₂ = .ok (.ok ()) w' := hscript
      unfold runScript at hscript
      rw [hinteractive.script_eq, hinteractive.input_eq] at hscript
      cases hscript
      exact hstands₂

/-- What precedes all chunks: the warnings, and the table of arguments. -/
def prepare (t : ThreadId) (o : Options) : M Unit := do
  if o.warnings then
    let _ ← runStatement t "warn('@on')"
  installArguments t o

/-- Says what the error was, or shows the prompt if that is asked for. -/
def afterChunks (t : ThreadId) (o : Options) (message : Except String Unit) : M Nat := do
  match message with
  | .error message =>
    writeErrorLine (programName ++ ": " ++ message)
    return 1
  | .ok () =>
    if o.prompts then
      if !o.showVersion then writeText (versionLine ++ "\n")
      prompt t
    return 0

theorem carryOut_eq (t : ThreadId) (o : Options) :
    carryOut t o = (do
      prepare t o
      afterChunks t o (← (runChunks t o).run)) := by
  unfold carryOut prepare
  cases o.warnings with
  | false => rfl
  | true => exact (bind_assoc _ _ _).symm

theorem installArguments_stands (hE : E.Sparing) (h : w.Stands t base us)
    (hrun : installArguments t o E w = .ok () w') : w'.Stands t base us := by
  have hshifts : Shifts [] t (installArguments t o) 0 fun _ => 0 :=
    (Interface.shifts_pushHost _).bind fun _ => Interface.shifts_setGlobal "arg"
  have htop := h.shows.top_eq
  have hstands : w.Stands t base (us ++ []) := (List.append_nil us).symm ▸ h
  rcases hshifts.run hE.disciplined h.live htop hrun with ⟨htop', hcarried⟩
  have hkept := hstands.carried hcarried (Nat.le_of_eq htop'.symm)
  have hsame : (w'.thread t).top = base + us.length := htop'
  rw [hsame, Nat.sub_self] at hkept
  exact (List.append_nil us) ▸ hkept

theorem prepare_stands (hE : E.Sparing) (h : w.Stands t base us)
    (hrun : prepare t o E w = .ok () w') : w'.Stands t base us := by
  unfold prepare at hrun
  cases hwarnings : o.warnings with
  | false =>
      rw [hwarnings] at hrun
      exact installArguments_stands hE h hrun
  | true =>
      rw [hwarnings] at hrun
      rcases ok_bind hrun with ⟨_, w₁, hwarn, hinstall⟩
      exact installArguments_stands hE (runChunk_stands hE h hwarn) hinstall

/-- How the prompt ends after a dialogue. -/
def concluded : Outcome (Unit × Bytes) → Outcome Nat
  | .ok _ w => .ok 0 { w with outside := w.outside.writeThrough "\n".toUTF8 }
  | .error r w => .error r w

theorem afterChunks_dialogue (hE : E.Sparing) (h : w.Stands t base us) (hprompts : o.prompts = true) :
    exists w₁ y, w₁.Stands t base us ∧ w₁ = { w with outside := w₁.outside } ∧
      Dialogue E t base (w₁.outside.input.size + 1) us "" ByteArray.empty w₁ y ∧
      afterChunks t o (.ok ()) E w = concluded y := by
  have hversion : exists w₁, w₁.Stands t base us ∧ w₁ = { w with outside := w₁.outside } ∧
      afterChunks t o (.ok ()) E w = (do
        prompt t
        return 0 : M Nat) E w₁ := by
    unfold afterChunks
    rw [hprompts]
    cases o.showVersion with
    | true => exact ⟨w, h, rfl, rfl⟩
    | false => exact ⟨_, stands_outside h _, rfl, (returns_writeText w _).andThen rfl⟩
  rcases hversion with ⟨w₁, hstands, hsame, hrun⟩
  refine ⟨w₁, _, hstands, hsame, run_dialogue hE _ hstands "" ByteArray.empty, hrun.trans ?_⟩
  have hread : Returns Machine.outside w₁ w₁.outside w₁ := fun _ => rfl
  generalize hdialogue : (((console t).run "" (w₁.outside.input.size + 1)).run ByteArray.empty :
    M (Unit × Bytes)) E w₁ = y
  have hprompt : prompt t E w₁ = (do
      let _ ← ((console t).run "" (w₁.outside.input.size + 1)).run ByteArray.empty
      writeText "\n" : M Unit) E w₁ := hread.andThen rfl
  cases y with
  | error r w' =>
      rw [bind_of_error hdialogue] at hprompt
      exact bind_of_error hprompt _
  | ok a w' =>
      rw [ok_andThen hdialogue (returns_writeText w' _ E)] at hprompt
      exact ok_andThen hprompt rfl

/-- The surroundings in which the machine of a program is opened. -/
def announced (o : Options) (surroundings : Outside) : Outside :=
  if o.showVersion then surroundings.writeThrough (versionLine ++ "\n").toUTF8 else surroundings

/-- A command line is carried out without an error up to the prompt: its chunks are begun in the world
`w₀`, and the prompt is reached in the world `w'`. -/
structure Reaches (E : Engine) (o : Options) (surroundings : Outside) (w₀ w' : World) : Prop where
  prepared : exists w, openMachine true E (worldIn (announced o surroundings)) = .ok () w ∧
    prepare ⟨0⟩ o E w = .ok () w₀
  chunks : (runChunks ⟨0⟩ o).run E w₀ = .ok (.ok ()) w'

/-- How a program ends after a dialogue: its machine is closed. -/
def closed (E : Engine) (y : Outcome (Unit × Bytes)) : Outcome Nat :=
  match concluded y with
  | .ok code w => (do
      closeMachine
      return code : M Nat) E w
  | .error r w => .error r w

/-- A program opens a machine, carries out its command line on it, and closes it. -/
theorem program_opened {words : List String} {surroundings : Outside}
    (hparse : Options.parse words = .ok o)
    (hopen : openMachine true E (worldIn (announced o surroundings)) = .ok () w) :
    program words E (worldIn surroundings) = (do
      let code ← carryOut ⟨0⟩ o
      closeMachine
      return code : M Nat) E w := by
  have hopened : (do
      openMachine true
      let code ← carryOut (← get).mainThread o
      closeMachine
      return code : M Nat) E (worldIn (announced o surroundings)) = (do
      let code ← carryOut ⟨0⟩ o
      closeMachine
      return code : M Nat) E w := by
    refine ok_andThen hopen ((returns_get w).andThen ?_)
    rw [(launched_opened hopen).main_eq]
  unfold program
  rw [hparse]
  dsimp only
  unfold announced at hopened
  cases hversion : o.showVersion with
  | true =>
      rw [hversion, if_pos rfl] at hopened
      rw [if_pos rfl]
      exact (returns_writeText (worldIn surroundings) (versionLine ++ "\n")).andThen hopened
  | false =>
      rw [hversion, if_neg Bool.false_ne_true] at hopened
      rw [if_neg Bool.false_ne_true]
      exact hopened

theorem program_carryOut {words : List String} {surroundings : Outside} {y : Outcome (Unit × Bytes)}
    (hparse : Options.parse words = .ok o)
    (hopen : openMachine true E (worldIn (announced o surroundings)) = .ok () w)
    (hcarry : carryOut ⟨0⟩ o E w = concluded y) :
    program words E (worldIn surroundings) = closed E y := by
  rw [program_opened hparse hopen]
  unfold closed
  cases hy : concluded y with
  | ok code w₁ =>
      rw [hy] at hcarry
      exact ok_andThen hcarry rfl
  | error r w₁ =>
      rw [hy] at hcarry
      exact bind_of_error hcarry _

/-- A program that gets to the prompt holds a dialogue, on a stack with nothing but the results of the
files, or the standard input, that were run before; and these are gone when a chunk was tried. -/
theorem prompt_answers (E : Engine) {words : List String} {surroundings : Outside}
    (hparse : Options.parse words = .ok o) (hprompts : o.prompts = true)
    (hsame : program words E.sparing (worldIn surroundings) = program words E (worldIn surroundings))
    (hreaches : Reaches E.sparing o surroundings w₀ w') :
    exists vs w₁ y, (Interactive o w₀.outside.environment → vs = []) ∧ w'.Stands ⟨0⟩ 1 vs ∧
      w₁ = { w' with outside := w₁.outside } ∧
      Dialogue E.sparing ⟨0⟩ 1 (w₁.outside.input.size + 1) vs "" ByteArray.empty w₁ y ∧
      program words E (worldIn surroundings) = closed E.sparing y := by
  have hE := E.sparing_sparing
  rcases hreaches.prepared with ⟨w, hopen, hprepare⟩
  have hempty := prepare_stands hE (launched_opened hopen).stands hprepare
  rcases runChunks_stands hE hempty hreaches.chunks with ⟨vs, hstands, hnone⟩
  rcases afterChunks_dialogue hE hstands hprompts with ⟨w₁, y, _, hsurrounded, hdialogue, hafter⟩
  refine ⟨vs, w₁, y, hnone, hstands, hsurrounded, hdialogue, ?_⟩
  rw [← hsame]
  refine program_carryOut hparse hopen ?_
  rw [carryOut_eq]
  exact ok_andThen hprepare (ok_andThen hreaches.chunks hafter)

/-- Whether a command line gets to the prompt, in surroundings without an environment. -/
def reachesPrompt (E : Engine) (o : Options) (surroundings : Outside) : Bool :=
  match openMachine true E (worldIn (announced o surroundings)) with
  | .ok _ w =>
    match prepare ⟨0⟩ o E w with
    | .ok _ w₀ =>
      match (runChunks ⟨0⟩ o).run E w₀ with
      | .ok (.ok _) _ => w₀.outside.environment.isEmpty
      | _ => false
    | .error _ _ => false
  | .error _ _ => false

theorem reaches_of_reachesPrompt {surroundings : Outside} (h : reachesPrompt E o surroundings = true) :
    exists w₀ w', Reaches E o surroundings w₀ w' ∧ w₀.outside.environment = [] := by
  unfold reachesPrompt at h
  cases hopen : openMachine true E (worldIn (announced o surroundings)) with
  | error r w =>
      rw [hopen] at h
      cases h
  | ok a w =>
      rw [hopen] at h
      dsimp only at h
      cases hprepare : prepare ⟨0⟩ o E w with
      | error r w₀ =>
          rw [hprepare] at h
          cases h
      | ok a w₀ =>
          rw [hprepare] at h
          dsimp only at h
          cases hchunks : (runChunks ⟨0⟩ o).run E w₀ with
          | error r w' =>
              rw [hchunks] at h
              cases h
          | ok a w' =>
              rw [hchunks] at h
              cases a with
              | error message => cases h
              | ok => exact ⟨w₀, w', ⟨⟨w, hopen, hprepare⟩, hchunks⟩, List.isEmpty_iff.mp h⟩

/-- A line with two values on the standard input. -/
def linedOutside : Outside := { input := "1, 2\n".toUTF8 }

theorem prompt_answers_lined :
    exists w₁ y, Dialogue (engine embedding.host 6).sparing ⟨0⟩ 1 (w₁.outside.input.size + 1) [] ""
        ByteArray.empty w₁ y ∧
      program ["-i"] (engine embedding.host 6).sparing (worldIn linedOutside) =
        closed (engine embedding.host 6).sparing y ∧
      (closed (engine embedding.host 6).sparing y).world.outside.output =
        (versionLine ++ "\n> 1\t2\n> \n").toUTF8 := by
  have hagain := (Engine.sparing_sparing (engine embedding.host 6)).sparing_eq
  have hparse : Options.parse ["-i"] = .ok { interactive := true, showVersion := true } := rfl
  have hreach : reachesPrompt (engine embedding.host 6).sparing.sparing
      { interactive := true, showVersion := true } linedOutside = true := by
    decide +kernel
  have hprinted : (Outcome.world (program ["-i"] (engine embedding.host 6).sparing
      (worldIn linedOutside))).outside.output = (versionLine ++ "\n> 1\t2\n> \n").toUTF8 := by
    decide +kernel
  rcases reaches_of_reachesPrompt hreach with ⟨w₀, w', hreaches, hnone⟩
  rcases prompt_answers (engine embedding.host 6).sparing hparse rfl (by rw [hagain]) hreaches with
    ⟨vs, w₁, y, hvs, _, _, hdialogue, hends⟩
  have hinteractive : Interactive { interactive := true, showVersion := true }
      w₀.outside.environment := by
    refine ⟨rfl, rfl, Or.inr fun name chunk hchunk => ?_⟩
    rw [hnone] at hchunk
    cases hchunk
  rw [hvs hinteractive, hagain] at hdialogue
  rw [hagain] at hends
  rw [hends] at hprinted
  exact ⟨w₁, y, hdialogue, hends, hprinted⟩

/-- Surroundings with a script that returns two values, and a line on the standard input. -/
def scriptedOutside : Outside :=
  { files := [("s.lua", "return 1, 2".toUTF8)], input := "3\n".toUTF8 }

/-- The values that the script returned are printed with the value of the first line. -/
theorem leftovers_printed :
    (run ["-i", "s.lua"] scriptedOutside).1.output = (versionLine ++ "\n> 1\t2\t3\n> \n").toUTF8 := by
  decide +kernel

end Order

end CommandLine

end LuaHost
