import LuaHost.Proofs.Handle.Snapshots
import LuaHost.Proofs.Interface.Delivering
import LuaHost.Proofs.Interface.Merging

/-!
# Calls through handles

A function is pushed through its handle, and above it the machine's forms of the
arguments, one after the other.  What the call leaves is counted from the height
that the stack had before.
-/

namespace LuaHost

open Interface Machine World

section Arguments

variable {t : ThreadId} {w w₁ w₂ : World} {v : Data.Value} {vs : List Data.Value} {x : Value}
  {xs : List Value}

/-- How many slots it takes to push host values one above the other. -/
def argumentSlots : List Data.Value → Nat
  | [] => 0
  | v :: vs => max v.slots (1 + argumentSlots vs)

/-- In the world `w'` a stack has the machine's forms of host values on top, in their order.  A table
among them is new, and nothing else is. -/
structure Laid (t : ThreadId) (vs : List Data.Value) (xs : List Value) (w w' : World) : Prop where
  loaded : exists n, Loaded t (w.withTables w'.heap.tables n) xs w'
  older : w.heap.tables.Extends w'.heap.tables
  shows : List.Forall₂ (Shows w'.heap.tables w.heap.tables.next w'.heap.tables.next) vs xs

theorem Laid.cons (h : Laid t [v] [x] w w₁) (h' : Laid t vs xs w₁ w₂) :
    Laid t (v :: vs) (x :: xs) w w₂ := by
  rcases h.loaded with ⟨n, hloaded⟩
  rcases h'.loaded with ⟨n', hloaded'⟩
  have hsame : forall j, w.heap.tables.next ≤ j -> j < w₁.heap.tables.next ->
      w₂.heap.tables.find? j = w₁.heap.tables.find? j := fun j _ hj => h'.older.find?_eq j hj
  refine ⟨⟨n', (hloaded.withTables w₂.heap.tables n').trans hloaded'⟩, h.older.trans h'.older, ?_⟩
  cases h.shows with
  | cons hshows _ =>
      refine .cons (hshows.widen (Nat.le_refl _) h'.older.next_le hsame) ?_
      exact h'.shows.imp fun _ _ hshows =>
        hshows.widen h.older.next_le (Nat.le_refl _) fun _ _ _ => rfl

/-- A host value needs as much room as pushing it takes, and its form is on top then. -/
theorem needs_pushHost_laid (hlive : w.liveThread t = true) (v : Data.Value) :
    Needs t (pushHost t v) w ((w.thread t).top + v.slots) fun _ w' => exists x, Laid t [v] [x] w w' := by
  constructor
  · intro hfits
    rcases returns_pushHost_making (R := fun before after => Shows after before.next after.next v)
        (produces_ofHost v) hlive hfits with ⟨x, s, n, w', hpush, hloaded, hextends, hshows⟩
    have htables : s = w'.heap.tables := hloaded.heap_tables.symm
    subst htables
    exact ⟨(), w', hpush, x, ⟨n, hloaded⟩, hextends, .cons hshows .nil⟩
  · intro hover E a w' h
    rcases ok_bind h with ⟨_, w₁, hneed, _⟩
    exact (needs_needRoom hlive (Assembling.slots_pos v)).stops hover E _ w₁ hneed

theorem needs_pushArguments (vs : List Data.Value) (hlive : w.liveThread t = true)
    (hfits : (w.thread t).top ≤ (w.thread t).limit) :
    Needs t (vs.forM (pushHost t)) w ((w.thread t).top + argumentSlots vs) fun _ w' =>
      exists xs, Laid t vs xs w w' := by
  induction vs generalizing w with
  | nil =>
      refine needs_of_returns (Returns.pure () w) hfits ⟨[], ?_, Store.Extends.refl _, .nil⟩
      exact ⟨w.collector.allocated, Loaded.nil hfits⟩
  | cons v vs ih =>
      have hfirst := needs_pushHost_laid hlive v
      have hlimit : forall (_ : Unit) w', (exists x, Laid t [v] [x] w w') ->
          (w'.thread t).limit = (w.thread t).limit := by
        rintro a w' ⟨x, hlaid⟩
        rcases hlaid.loaded with ⟨n, hloaded⟩
        exact hloaded.raised.limit_eq
      show Needs t (do
        pushHost t v
        vs.forM (pushHost t)) w _ _
      refine (hfirst.bind hlimit (n := (w.thread t).top + (1 + argumentSlots vs)) ?_).of_eq ?_
      · rintro a w' ⟨x, hlaid⟩
        rcases hlaid.loaded with ⟨n, hloaded⟩
        have htop : (w'.thread t).top = (w.thread t).top + 1 := hloaded.raised.top_eq
        have hrest := ih (hloaded.live hlive) hloaded.raised.fits
        rw [htop, Nat.add_assoc] at hrest
        refine hrest.imp ?_
        rintro a' w'' ⟨xs, hlaid'⟩
        exact ⟨x :: xs, hlaid.cons hlaid'⟩
      · rw [argumentSlots]
        omega

end Arguments

/-!
# The call
-/

section Call

variable {es : List (RefId × Value)} {t : ThreadId} {base : Nat} {us xs : List Value} {f : Value}
  {args : List Data.Value} {w w₁ : World} {E : Engine} {id : RefId} {r : OwnedRef}

theorem needs_pushRef (h : Ledger es w) (hmem : (id, f) ∈ es) (hlive : w.liveThread t = true)
    (hbased : (w.thread t).base ≤ (w.thread t).top) :
    Needs t (pushRef t id) w ((w.thread t).top + 1) fun _ w' => Loaded t w [f] w' := by
  have hreserved := ne_reserved (h.bounds hmem).1
  constructor
  · intro hfits
    rcases returns_pushRef_loaded h hmem ⟨hlive, hbased, hfits⟩ with ⟨w', hpush, hloaded⟩
    exact ⟨_, w', hpush, hloaded⟩
  · intro hover E a w' hrun
    unfold pushRef at hrun
    rw [if_neg (by simp [hreserved.1, hreserved.2])] at hrun
    have hrun := (returns_checkIndex (validIndex_registry _)).ok_bind hrun
    rcases ok_bind hrun with ⟨_, w₁, hreserve, _⟩
    exact (needs_reserve hlive (n := 1) (by decide)).stops hover E _ w₁ hreserve

/-- The world in which a function is called: it stands above the values `us`, and above it there are
the machine's forms of the arguments in their order.  The tables among them are new, and nothing else
has changed. -/
structure Applied (t : ThreadId) (base : Nat) (us : List Value) (f : Value) (args : List Data.Value)
    (xs : List Value) (w w₁ : World) : Prop where
  stands : w₁.Stands t base (us ++ f :: xs)
  loaded : exists n, Loaded t (w.withTables w₁.heap.tables n) (f :: xs) w₁
  older : w.heap.tables.Extends w₁.heap.tables
  shows : List.Forall₂ (Shows w₁.heap.tables w.heap.tables.next w₁.heap.tables.next) args xs

/-- Pushes a function and the arguments of a call. -/
def pushCall (r : OwnedRef) (args : List Data.Value) : M Unit := do
  let _ ← r.push
  args.forM (pushHost r.thread)

theorem needs_pushCall (h : Ledger es w) (hmem : (r.id, f) ∈ es)
    (hstands : w.Stands r.thread base us) (args : List Data.Value) :
    Needs r.thread (pushCall r args) w ((w.thread r.thread).top + (1 + argumentSlots args)) fun _ w₁ =>
      exists xs, Applied r.thread base us f args xs w w₁ := by
  have hbased : (w.thread r.thread).base ≤ (w.thread r.thread).top :=
    hstands.shows.top_eq ▸ hstands.base_le us.length
  have hpush := needs_pushRef h hmem hstands.live hbased
  have hlimit : forall (_ : Kind) w', Loaded r.thread w [f] w' ->
      (w'.thread r.thread).limit = (w.thread r.thread).limit := fun _ _ hloaded => hloaded.raised.limit_eq
  refine (hpush.bind hlimit (n := (w.thread r.thread).top + (1 + argumentSlots args)) ?_).of_eq
    (Nat.max_eq_right (by omega))
  intro _ w' hloaded
  have htop : (w'.thread r.thread).top = (w.thread r.thread).top + 1 := hloaded.raised.top_eq
  have hrest := needs_pushArguments args (hloaded.live hstands.live) hloaded.raised.fits
  rw [htop, Nat.add_assoc] at hrest
  refine hrest.imp ?_
  rintro _ w₁ ⟨xs, hlaid⟩
  rcases hlaid.loaded with ⟨n, hloaded'⟩
  have hwhole := (hloaded.withTables w₁.heap.tables n).trans hloaded'
  have holder := hlaid.older
  have hshows := hlaid.shows
  rw [hloaded.heap_tables] at holder hshows
  have hbefore : (w.withTables w₁.heap.tables n).Stands r.thread base us :=
    ⟨hstands.live, hstands.shows⟩
  exact ⟨xs, hbefore.loaded hwhole, ⟨n, hwhole⟩, holder, hshows⟩

theorem call_eq (hstands : w.Stands r.thread base us) {args : List Data.Value} :
    FunctionRef.call r args E w = (do
      pushCall r args
      let s ← pcall r.thread args.length multipleResults 0
      return (s, (← getTop r.thread) - (us.length : Int)) : M (Status × Int)) E w := by
  refine (returns_getTop hstands).andThen ?_
  unfold pushCall
  simp only [bind_assoc]

theorem call_delivers (hE : E.Sparing) (h : Ledger es w) (hmem : (r.id, f) ∈ es)
    (hstands : w.Stands r.thread base us)
    (hroom : (w.thread r.thread).top + (1 + argumentSlots args) ≤ (w.thread r.thread).limit) :
    exists xs w₁, Applied r.thread base us f args xs w w₁ ∧
      Delivers (fun s n => (s, (n : Int))) E r.thread base us w₁
        (E.call r.thread (base + us.length) multipleResults false (shieldedWorld r.thread 0 w₁))
        (FunctionRef.call r args E w) := by
  rcases (needs_pushCall h hmem hstands args).returns hroom with ⟨_, w₁, hpush, xs, happlied⟩
  refine ⟨xs, w₁, happlied, ?_⟩
  have hdelivers := (pcall_delivers hE happlied.stands).counted
  rw [← happlied.shows.length_eq] at hdelivers
  rw [call_eq hstands, hpush.andThen rfl]
  exact hdelivers

theorem call_full (h : Ledger es w) (hmem : (r.id, f) ∈ es) (hstands : w.Stands r.thread base us)
    (hfull : (w.thread r.thread).limit < (w.thread r.thread).top + (1 + argumentSlots args))
    (a : Status × Int) (w' : World) : FunctionRef.call r args E w ≠ .ok a w' := by
  intro hrun
  rw [call_eq hstands] at hrun
  rcases ok_bind hrun with ⟨_, w₁, hpush, _⟩
  exact (needs_pushCall h hmem hstands args).stops hfull E _ w₁ hpush

end Call

/-!
# Function handles in a run
-/

namespace Ownership

variable {s : State} {r : OwnedRef} {f : Value} {base : Nat} {us : List Value}

/-- Calls report what they leave on the stack, as long as the calls made on the way put their results
in place and leave alone what lies below.  A function that a handle stands for is called with the
machine's forms of the arguments, if there is room for these; what it leaves is above all earlier
values, and counted.  A chunk that is run leaves its results or one error object there, and one whose
text is malformed the message.  Checking a status afterwards tells errors, and has no effect. -/
theorem run_called {libraries : Bool} {E₀ : Engine} {w₀ : World}
    (hopen : openMachine libraries E₀ freshWorld = .ok () w₀) (hrun : Run { world := w₀ } s)
    (hphase : s.phase ≠ .closed) (hheld : ⟨.typed .function r, f⟩ ∈ s.held)
    (hstands : s.world.Stands r.thread base us) (E : Engine) :
    (forall args, FunctionRef.call r args E.sparing s.world = FunctionRef.call r args E s.world ->
      ((s.world.thread r.thread).top + (1 + argumentSlots args) ≤ (s.world.thread r.thread).limit ->
        exists xs w₁, Applied r.thread base us f args xs s.world w₁ ∧
          Delivers (fun status n => (status, (n : Int))) E.sparing r.thread base us w₁
            (E.sparing.call r.thread (base + us.length) multipleResults false
              (shieldedWorld r.thread 0 w₁))
            (FunctionRef.call r args E s.world)) ∧
      ((s.world.thread r.thread).limit < (s.world.thread r.thread).top + (1 + argumentSlots args) ->
        forall a w', FunctionRef.call r args E s.world ≠ .ok a w')) ∧
    (forall t base us w code, w.Stands t base us ->
      doString t code E.sparing w = doString t code E w ->
      ((w.thread t).top + 1 ≤ (w.thread t).limit ->
        Executes E.sparing t base us code w (doString t code E w) ∧
        forall msg, Malformed w t code.toUTF8 (cutName code) msg ->
          (forall i, i ∈ (w.thread t).toClose -> i < base + us.length) ->
          exists w', doString t code E w = .ok .errSyntax w' ∧
            w'.Stands t base (us ++ [.str msg])) ∧
      ((w.thread t).limit < (w.thread t).top + 1 ->
        forall status w', doString t code E w ≠ .ok status w')) ∧
    (forall t base vs w (status : Status), w.Stands t base vs ->
      (status.isError = true -> vs ≠ []) ->
      exists fault, Returns (checkStatus t status) w fault w ∧
        (fault = none ↔ status.isError = false)) := by
  have hsound := sound_run (sound_opened hopen) hrun
  have hledger := hsound.ledger hphase
  rcases hsound.typed hheld rfl with ⟨hentries, hnil, hkind⟩
  -- a handle of a function does not have the reserved number: behind that stands nil, which is no
  -- function
  have hid : r.id ≠ nilRef := by
    intro hid
    rw [hnil hid] at hkind
    cases hkind
  have hmem : (r.id, f) ∈ s.entries := by
    rw [entry_of_ne hid] at hentries
    exact hentries (List.mem_singleton_self _)
  refine ⟨fun args hsame => ⟨fun hroom => ?_, call_full hledger hmem hstands⟩, ?_, ?_⟩
  · rw [← hsame]
    exact call_delivers E.sparing_sparing hledger hmem hstands hroom
  · intro t base us w code hcode hsame
    refine ⟨fun hroom => ?_, fun hfull status w' => doString_full hcode.live hfull code⟩
    rw [← hsame]
    refine ⟨doString_executes E.sparing_sparing hcode hroom code, ?_⟩
    exact fun msg hmalformed => doString_malformed E.sparing_sparing hcode hroom hmalformed
  · exact fun t base vs w status hvs => checkStatus_reports hvs

/-- A script that leaves the function `select` on the main stack, and a number above it. -/
def pushSelect : M Unit := do
  pushNew ⟨0⟩ (.native (.base .select))
  pushNew ⟨0⟩ (.int 5)

/-- A handle was created from it. -/
@[irreducible] def selectWorld : World :=
  after (OwnedValue.fromIndex ⟨0⟩ 1) (after pushSelect openedWorld)

theorem answered_select :
    answer? pushSelect openedWorld = some () ∧
      (after pushSelect openedWorld).valueAt ⟨0⟩ 1 = .native (.base .select) ∧
      (answer? (OwnedValue.fromIndex ⟨0⟩ 1) (after pushSelect openedWorld)).bind
        (Detached.asKind? .function) = some ⟨⟨0⟩, 4, true⟩ := by
  decide +kernel

theorem run_select :
    Run { world := openedWorld }
      { world := selectWorld,
        held := [⟨.typed .function ⟨⟨0⟩, 4, true⟩, .native (.base .select)⟩] } := by
  rcases answered_select with ⟨hran, hvalue, hmade⟩
  have hkeeps : Keeps World.Kept pushSelect :=
    (keeps_pushNew ⟨0⟩ _).bind fun _ => keeps_pushNew ⟨0⟩ _
  have hrun := run_typed hkeeps hran hmade
  rw [hvalue] at hrun
  unfold selectWorld
  exact hrun

/-- The arguments, of which all from the second on are selected. -/
def selecting : List Data.Value := [.number (.int 2), .bool true, .string "a", .table .empty]

theorem selectWorld_eq :
    selectWorld.liveThread ⟨0⟩ = true ∧
      (selectWorld.thread ⟨0⟩).base = 1 ∧ (selectWorld.thread ⟨0⟩).base ≤ (selectWorld.thread ⟨0⟩).top ∧
      (selectWorld.thread ⟨0⟩).values = [.native (.base .select), .int 5] ∧
      (selectWorld.thread ⟨0⟩).top + (1 + argumentSlots selecting) ≤ (selectWorld.thread ⟨0⟩).limit ∧
      (selectWorld.thread ⟨0⟩).toClose = [] := by
  decide +kernel

/-- An engine whose calls put their results in place. -/
def placingEngine : Engine := (engine CommandLine.embedding.host 6).sparing

theorem placingEngine_sparing : placingEngine.sparing = placingEngine :=
  (Engine.sparing_sparing _).sparing_eq

theorem answered_calls :
    Outcome.answer? (FunctionRef.call ⟨⟨0⟩, 4, true⟩ selecting placingEngine selectWorld) =
        some (.ok, 2) ∧
      Outcome.answer? (FunctionRef.call ⟨⟨0⟩, 4, true⟩ [] placingEngine selectWorld) =
        some (.errRun, 1) ∧
      Outcome.answer? (doString ⟨0⟩ "return 1, 2" placingEngine selectWorld) = some .ok := by
  decide +kernel

/-- A text that is no chunk. -/
def refusedCode : String := "return return"

theorem malformed_refused :
    exists msg, Malformed selectWorld ⟨0⟩ refusedCode.toUTF8 (cutName refusedCode) msg := by
  have hfault : (match compileText refusedCode.toUTF8 (cutName refusedCode)
      (maxNesting - 1 - (selectWorld.thread ⟨0⟩).nesting) with
      | .error (.malformed line _ _) => some line
      | _ => none) = some 1 := by
    decide +kernel
  split at hfault
  · next line what near hcompile =>
      exact ⟨_, by decide +kernel, line, what, near, hcompile, rfl⟩
  · cases hfault

theorem run_called_select :
    (exists xs w₁ w' results,
      Applied ⟨0⟩ 1 [.native (.base .select), .int 5] (.native (.base .select)) selecting xs
        selectWorld w₁ ∧
      FunctionRef.call ⟨⟨0⟩, 4, true⟩ selecting placingEngine selectWorld = .ok (.ok, 2) w' ∧
      results.length = 2 ∧
      w'.Stands ⟨0⟩ 1 ([.native (.base .select), .int 5] ++ results)) ∧
    (exists x w',
      FunctionRef.call ⟨⟨0⟩, 4, true⟩ [] placingEngine selectWorld = .ok (.errRun, 1) w' ∧
      w'.Stands ⟨0⟩ 1 ([.native (.base .select), .int 5] ++ [x])) ∧
    (exists results w',
      doString ⟨0⟩ "return 1, 2" placingEngine selectWorld = .ok .ok w' ∧
      w'.Stands ⟨0⟩ 1 ([.native (.base .select), .int 5] ++ results)) ∧
    exists msg fault w',
      doString ⟨0⟩ refusedCode placingEngine selectWorld = .ok .errSyntax w' ∧
      w'.Stands ⟨0⟩ 1 ([.native (.base .select), .int 5] ++ [.str msg]) ∧
      Returns (checkStatus ⟨0⟩ .errSyntax) w' fault w' ∧ fault ≠ none := by
  rcases selectWorld_eq with ⟨hlive, hbase, hbased, hvalues, hfits, hnone⟩
  rcases answered_calls with ⟨hselects, hfails, hreturns⟩
  rcases malformed_refused with ⟨msg, hmalformed⟩
  have hstands : selectWorld.Stands ⟨0⟩ 1 [.native (.base .select), .int 5] := by
    rw [← hvalues, ← hbase]
    exact stands_values hlive hbased
  have hroom := Nat.le_trans (Nat.add_le_add_left (Nat.le_add_right 1 _) _) hfits
  rcases run_called ok_openedWorld run_select nofun (List.mem_singleton_self _) hstands
    placingEngine with ⟨hcall, hcode, hcheck⟩
  -- the engine of this run gives no call up, so that the hypotheses of the general case hold by
  -- computation
  have hagain := placingEngine_sparing
  have hselects := ok_of_answer? hselects
  have hfails := ok_of_answer? hfails
  have hreturns := ok_of_answer? hreturns
  refine ⟨?_, ?_, ?_, ?_⟩
  · rcases (hcall selecting (by rw [hagain])).1 hfits with ⟨xs, w₁, happlied, hdelivers⟩
    rw [hselects] at hdelivers
    rcases hdelivers.ends with ⟨results, hcount, hleft⟩ | ⟨status, x, hs, heq, _⟩
    · refine ⟨xs, w₁, _, results, happlied, hselects, ?_, hleft⟩
      exact (Int.ofNat_inj.mp (congrArg Prod.snd hcount)).symm
    · cases congrArg Prod.fst heq
      cases hs
  · have hfew : 1 + argumentSlots [] ≤ 1 + argumentSlots selecting := by decide
    have hfits := Nat.le_trans (Nat.add_le_add_left hfew _) hfits
    rcases (hcall [] (by rw [hagain])).1 hfits with ⟨xs, w₁, _, hdelivers⟩
    rw [hfails] at hdelivers
    rcases hdelivers.ends with ⟨results, heq, _⟩ | ⟨status, x, _, _, hleft⟩
    · cases congrArg Prod.fst heq
    · exact ⟨x, _, hfails, hleft⟩
  · have hexecutes :=
      ((hcode ⟨0⟩ 1 _ selectWorld "return 1, 2" hstands (by rw [hagain])).1 hroom).1
    rw [hreturns] at hexecutes
    rcases hexecutes.ends with ⟨_, results, hleft⟩ | ⟨hs, _⟩
    · exact ⟨results, _, hreturns, hleft⟩
    · cases hs
  · have hrefuses := ((hcode ⟨0⟩ 1 _ selectWorld refusedCode hstands (by rw [hagain])).1 hroom).2
    rcases hrefuses msg hmalformed (by rw [hnone]; exact nofun) with ⟨w', hrefused, hleft⟩
    rcases hcheck ⟨0⟩ 1 _ w' .errSyntax hleft fun _ => List.append_ne_nil_of_right_ne_nil _ nofun with
      ⟨fault, hchecked, hfault⟩
    exact ⟨msg, fault, w', hrefused, hleft, hchecked, fun hnofault => nomatch hfault.mp hnofault⟩

end Ownership

end LuaHost
