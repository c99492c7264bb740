import LuaHost.Interface.Opening
import LuaHost.Proofs.Interface.Keys
import LuaHost.Proofs.Interface.Slots

/-!
# Installing libraries

What the standard library installs are new tables, closures and userdata, and
named fields of tables.  It touches no thread, and it always comes to an end.
-/

namespace LuaHost

/-- A name that is written to a table of the standard library, with its value: it is not the one of
the flag, and the function for warnings is the only thing of its name. -/
structure Standard (name : String) (v : Value) : Prop where
  ne_flag : name ≠ Interface.aliveField
  warn : name = "warn" -> v = .native (.base .warn)

/-- A name that nothing is said about. -/
def Common (name : String) : Prop := name ≠ Interface.aliveField ∧ name ≠ "warn"

instance (name : String) : Decidable (Common name) := inferInstanceAs (Decidable (_ ∧ _))

theorem Common.standard {name : String} (h : Common name) (v : Value) : Standard name v :=
  ⟨h.1, fun heq => absurd heq h.2⟩

theorem toUTF8_ne {s s' : String} (h : s ≠ s') : s.toUTF8 ≠ s'.toUTF8 := by
  intro heq
  have hback := congrArg String.fromUTF8? heq
  rw [Bytes.fromUTF8?_toUTF8, Bytes.fromUTF8?_toUTF8] at hback
  exact h (Option.some.inj hback)

theorem ofText_ne {s s' : String} (h : s ≠ s') : Value.ofText s ≠ .ofText s' := by
  intro heq
  injection heq with heq
  exact toUTF8_ne h heq

namespace Table

/-- A table that some fields were written to. -/
inductive Fields (T : Table) : Table → Prop where
  | refl : Fields T T
  | put {T' : Table} {name : String} {v : Value} :
      Fields T T' → Standard name v → Fields T (T'.put (.ofText name) v)

namespace Fields

variable {T T' T'' : Table}

theorem trans (h : T.Fields T') (h' : T'.Fields T'') : T.Fields T'' := by
  induction h' with
  | refl => exact h
  | put _ hstandard ih => exact ih.put hstandard

theorem metatable_eq (h : T.Fields T') : T'.metatable = T.metatable := by
  induction h with
  | refl => rfl
  | put _ _ ih => exact (metatable_put _ _ _).trans ih

theorem getInt_eq (h : T.Fields T') (i : Int64) : T'.getInt i = T.getInt i := by
  induction h with
  | refl => rfl
  | put _ _ ih =>
      unfold getInt
      rw [find_put, if_neg nofun]
      exact ih

theorem untouched (h : T.Fields T') : Interface.Untouched T T' := by
  induction h with
  | refl => exact .refl
  | put _ hstandard ih =>
      refine ih.put _ (fun _ => nofun) fun hkey => ?_
      exact ofText_ne hstandard.ne_flag hkey

/-- The function for warnings is not overwritten. -/
theorem warn (h : T.Fields T') (hwarn : T.find (.ofText "warn") = .native (.base .warn)) :
    T'.find (.ofText "warn") = .native (.base .warn) := by
  induction h with
  | refl => exact hwarn
  | @put T' name v _ hstandard ih =>
      rw [find_put]
      by_cases hname : name = "warn"
      · rw [if_pos (congrArg Value.ofText hname), hstandard.warn hname]
      · rw [if_neg (ofText_ne hname)]
        exact ih

end Fields

end Table

namespace World

/-- The world after some library was installed. -/
structure Installed (w w' : World) : Prop where
  threads_eq : w'.heap.threads = w.heap.threads
  main_eq : w'.mainThread = w.mainThread
  registry_eq : w'.registry = w.registry
  liveness_eq : w'.liveness = w.liveness
  tables : forall i T, w.heap.tables.find? i = some T ->
    exists T', w'.heap.tables.find? i = some T' ∧ T.Fields T'

variable {w w' w'' : World}

theorem installed_of_eq (hthreads : w'.heap.threads = w.heap.threads)
    (hmain : w'.mainThread = w.mainThread) (hregistry : w'.registry = w.registry)
    (hliveness : w'.liveness = w.liveness) (htables : w'.heap.tables = w.heap.tables) :
    w.Installed w' := by
  refine ⟨hthreads, hmain, hregistry, hliveness, fun i T hT => ⟨T, ?_, .refl⟩⟩
  rw [htables]
  exact hT

theorem Installed.refl (w : World) : w.Installed w := installed_of_eq rfl rfl rfl rfl rfl

theorem Installed.trans (h : w.Installed w') (h' : w'.Installed w'') : w.Installed w'' := by
  refine ⟨h'.threads_eq.trans h.threads_eq, h'.main_eq.trans h.main_eq,
    h'.registry_eq.trans h.registry_eq, h'.liveness_eq.trans h.liveness_eq, fun i T hT => ?_⟩
  rcases h.tables i T hT with ⟨T', hT', hfields⟩
  rcases h'.tables i T' hT' with ⟨T'', hT'', hfields'⟩
  exact ⟨T'', hT'', hfields.trans hfields'⟩

end World

namespace Machine

/-- The computation returns, and has installed some library. -/
structure Installs {α : Type} (x : M α) : Prop where
  run : forall w, exists a w', Returns x w a w' ∧ w.Installed w'

variable {α β : Type}

theorem Installs.bind {x : M α} {f : α → M β} (hx : Installs x) (hf : forall a, Installs (f a)) :
    Installs (x >>= f) := by
  refine ⟨fun w => ?_⟩
  rcases hx.run w with ⟨a, w₁, hfirst, hinstalled⟩
  rcases (hf a).run w₁ with ⟨b, w₂, hrest, hinstalled'⟩
  exact ⟨b, w₂, Returns.bind hfirst hrest, hinstalled.trans hinstalled'⟩

theorem installs_reads {x : M α} (h : forall w, Reads x w) : Installs x := by
  refine ⟨fun w => ?_⟩
  rcases h w with ⟨a, ha⟩
  exact ⟨a, w, ha, .refl w⟩

theorem Installs.pure (a : α) : Installs (pure a) := installs_reads fun w => ⟨a, Returns.pure a w⟩

theorem Installs.forM {f : α → M PUnit} {xs : List α} (h : forall x, x ∈ xs -> Installs (f x)) :
    Installs (xs.forM f) := by
  induction xs with
  | nil => exact Installs.pure _
  | cons x xs ih =>
      exact (h x (List.mem_cons_self ..)).bind fun _ =>
        ih fun y hy => h y (List.mem_cons_of_mem x hy)

theorem Installs.mapM {f : α → M β} (h : forall a, Installs (f a)) (xs : List α) :
    Installs (xs.mapM f) := by
  have hloop : forall (xs : List α) (acc : List β), Installs (List.mapM.loop f xs acc) := by
    intro xs
    induction xs with
    | nil => exact fun acc => Installs.pure _
    | cons x xs ih => exact fun acc => (h x).bind fun y => ih (y :: acc)
  exact hloop xs []

theorem installs_modify {f : World → World} (h : forall w : World, w.Installed (f w)) :
    Installs (modify f : M Unit) :=
  ⟨fun w => ⟨(), f w, returns_modify f w, h w⟩⟩

theorem installs_registryValue (k : Value) : Installs (registryValue k) :=
  installs_reads fun _ => ⟨_, fun _ => rfl⟩

theorem installs_newTable (T : Table) : Installs (newTable T) := by
  refine ⟨fun w => ⟨_, _, returns_newTable w T, rfl, rfl, rfl, rfl, fun i T' hT' => ?_⟩⟩
  refine ⟨T', ?_, .refl⟩
  show (w.heap.tables.push T).find? i = _
  rw [Store.find?_push, if_neg (Nat.ne_of_lt (Store.lt_next_of_live (Store.live_of_find? hT')))]
  exact hT'

theorem installs_put (id : TableId) {name : String} {v : Value} (h : Standard name v) :
    Installs (modifyTable id (·.put (.ofText name) v)) := by
  refine ⟨fun w => ⟨_, _, returns_modifyTable w id _, rfl, rfl, rfl, rfl, fun i T hT => ?_⟩⟩
  have hfind : (w.heap.tables.modify id.index (·.put (.ofText name) v)).find? i =
      if id.index = i then some (T.put (.ofText name) v) else some T := by
    rw [Store.find?_modify, hT]
    rfl
  by_cases hid : id.index = i
  · rw [if_pos hid] at hfind
    exact ⟨_, hfind, Table.Fields.refl.put h⟩
  · rw [if_neg hid] at hfind
    exact ⟨T, hfind, .refl⟩

theorem installs_newClosure (c : Closure) : Installs (newClosure c) :=
  ⟨fun _ => ⟨_, _, fun _ => rfl, World.installed_of_eq rfl rfl rfl rfl rfl⟩⟩

theorem installs_newUserdata (d : UserData) : Installs (newUserdata d) :=
  ⟨fun _ => ⟨_, _, fun _ => rfl, World.installed_of_eq rfl rfl rfl rfl rfl⟩⟩

theorem installs_noteFinalizer (v : Value) (m : TableId) : Installs (noteFinalizer v m) := by
  refine (installs_reads fun w => ⟨w, returns_get w⟩).bind fun w => ?_
  dsimp only
  split
  · exact Installs.pure _
  · refine (installs_reads fun _ => ⟨_, fun _ => rfl⟩).bind fun T => ?_
    split
    · exact installs_modify fun _ => World.installed_of_eq rfl rfl rfl rfl rfl
    · exact Installs.pure _

end Machine

namespace Library

open Machine

/-!
# The standard library
-/

theorem installs_setField (id : TableId) {name : String} (h : Common name) (v : Value) :
    Installs (setField id name v) :=
  installs_put id (h.standard v)

theorem installs_setNamed {name : String} (h : Common name) (v : Value) :
    Installs (setRegistryValue (.ofText name) v) :=
  (installs_reads fun w => ⟨w, returns_get w⟩).bind fun w => installs_put w.registry (h.standard v)

theorem installs_registryTable {name : String} (h : Common name) : Installs (registryTable name) := by
  refine (installs_registryValue _).bind fun v => ?_
  cases v with
  | table id => exact Installs.pure id
  | _ =>
      exact (installs_newTable {}).bind fun id =>
        (installs_setNamed h _).bind fun _ => Installs.pure id

theorem installs_setFunctions {α : Type} (id : TableId) (wrap : α → Native)
    {names : List (String × α)} (h : forall e, e ∈ names -> Standard e.1 (.native (wrap e.2))) :
    Installs (setFunctions id wrap names) :=
  Installs.forM fun e he => installs_put id (h e he)

theorem installs_libraryTable {α : Type} (wrap : α → Native) {names : List (String × α)}
    (h : forall e, e ∈ names -> Common e.1) : Installs (libraryTable wrap names) :=
  (installs_newTable _).bind fun id =>
    (installs_setFunctions id wrap fun e he => (h e he).standard _).bind fun _ => Installs.pure id

theorem installs_install {name : String} (h : Common name) (id : TableId) :
    Installs (install name id) := by
  refine (installs_registryTable (by decide)).bind fun m => ?_
  refine (installs_setField m h _).bind fun _ => (installs_registryValue _).bind fun v => ?_
  cases v with
  | table g => exact installs_setField g h _
  | _ => exact Installs.pure _

theorem installs_installLibrary {α : Type} {name : String} (hname : Common name)
    (wrap : α → Native) {names : List (String × α)} (h : forall e, e ∈ names -> Common e.1) :
    Installs (installLibrary name wrap names) :=
  (installs_libraryTable wrap h).bind fun id => installs_install hname id

theorem standard_baseNames : forall e, e ∈ baseNames -> Standard e.1 (.native (.base e.2)) := by
  intro e he
  have hflag : forall e, e ∈ baseNames -> e.1 ≠ Interface.aliveField := by decide
  have hwarn : forall e, e ∈ baseNames -> e.1 = "warn" -> e.2 = .warn := by decide
  exact ⟨hflag e he, fun heq => by rw [hwarn e he heq]⟩

/-- The names under which the table of globals itself stands. -/
def nameGlobals (g : TableId) : M Unit := do
  setField g "_G" (.table g)
  setField g "_VERSION" (.ofText "Lua 5.4")
  install "_G" g

theorem installs_nameGlobals (g : TableId) : Installs (nameGlobals g) :=
  (installs_setField g (by decide) _).bind fun _ => (installs_setField g (by decide) _).bind fun _ =>
    installs_install (by decide) g

theorem installs_openBase : Installs openBase := by
  refine (installs_registryValue _).bind fun v => ?_
  cases v with
  | table g =>
      exact (installs_setFunctions g .base standard_baseNames).bind fun _ => installs_nameGlobals g
  | _ => exact Installs.pure _

theorem installs_environmentPath (name path : String) : Installs (environmentPath name path) := by
  refine (installs_reads fun w => ⟨w.outside, fun _ => rfl⟩).bind fun o => ?_
  dsimp only
  split
  · exact Installs.pure _
  · split <;> exact Installs.pure _

theorem installs_openPackage : Installs openPackage := by
  have hmodule (id : TableId) (f : PackageFn) :
      Installs (do return .closure (← newClosure (.native (.package f) #[.table id])) : M Value) :=
    (installs_newClosure _).bind fun _ => Installs.pure _
  refine (installs_libraryTable .package (by decide)).bind fun id => ?_
  refine (Installs.mapM (hmodule id) searchers).bind fun fs => (installs_newTable _).bind fun list => ?_
  refine (installs_setField id (by decide) _).bind fun _ => ?_
  refine (installs_environmentPath _ _).bind fun path => ?_
  refine (installs_setField id (by decide) _).bind fun _ => ?_
  refine (installs_environmentPath _ _).bind fun cpath => ?_
  refine (installs_setField id (by decide) _).bind fun _ => ?_
  refine (installs_setField id (by decide) _).bind fun _ => ?_
  refine (installs_registryTable (by decide)).bind fun loaded => ?_
  refine (installs_setField id (by decide) _).bind fun _ => ?_
  refine (installs_registryTable (by decide)).bind fun preload => ?_
  refine (installs_setField id (by decide) _).bind fun _ => (installs_registryValue _).bind fun v => ?_
  have hinstall : Installs (install "package" id) := installs_install (by decide) id
  cases v with
  | table g =>
      exact (hmodule id .require).bind fun f =>
        (installs_setField g (by decide) _).bind fun _ => hinstall
  | _ => exact hinstall

theorem installs_newStream (s : Stream) : Installs (newStream s) := by
  refine (installs_registryValue _).bind fun v => (installs_newUserdata _).bind fun u => ?_
  dsimp only
  split
  · exact (installs_noteFinalizer _ _).bind fun _ => Installs.pure _
  · exact Installs.pure _

theorem installs_openIo : Installs openIo := by
  refine (installs_libraryTable .io (by decide)).bind fun id => ?_
  refine (installs_libraryTable .io (by decide)).bind fun methods => ?_
  refine (installs_libraryTable .io (by decide)).bind fun mt => ?_
  refine (installs_setField mt (by decide) _).bind fun _ => ?_
  refine (installs_setField mt (by decide) _).bind fun _ => ?_
  refine (installs_setNamed (by decide) _).bind fun _ => (installs_newStream _).bind fun stdin => ?_
  refine (installs_setNamed (by decide) _).bind fun _ => ?_
  refine (installs_setField id (by decide) _).bind fun _ => (installs_newStream _).bind fun stdout => ?_
  refine (installs_setNamed (by decide) _).bind fun _ => ?_
  refine (installs_setField id (by decide) _).bind fun _ => (installs_newStream _).bind fun stderr => ?_
  exact (installs_setField id (by decide) _).bind fun _ => installs_install (by decide) id

theorem installs_openString : Installs openString := by
  have hoperations : forall m, m ∈ stringOperations -> Common m.field := by decide
  refine (installs_libraryTable .string (by decide)).bind fun id => ?_
  refine (installs_newTable _).bind fun mt => ?_
  refine (Installs.forM fun m hm => installs_setField mt (hoperations m hm) _).bind fun _ => ?_
  refine (installs_setField mt (by decide) _).bind fun _ => ?_
  have hgive : Installs (setMetatableOf (.str ByteArray.empty) (some mt)) :=
    installs_modify fun _ => World.installed_of_eq rfl rfl rfl rfl rfl
  exact hgive.bind fun _ => installs_install (by decide) id

theorem installs_openMath : Installs openMath := by
  refine (installs_libraryTable .math (by decide)).bind fun id => ?_
  refine (installs_setField id (by decide) _).bind fun _ => ?_
  refine (installs_setField id (by decide) _).bind fun _ => ?_
  refine (installs_setField id (by decide) _).bind fun _ => ?_
  refine (installs_setField id (by decide) _).bind fun _ => ?_
  have hseed : Installs (modify fun w => { w with random := seeded 0 0 } : M Unit) :=
    installs_modify fun _ => World.installed_of_eq rfl rfl rfl rfl rfl
  exact hseed.bind fun _ => installs_install (by decide) id

theorem installs_openUtf8 : Installs openUtf8 :=
  (installs_libraryTable .utf8 (by decide)).bind fun id =>
    (installs_setField id (by decide) _).bind fun _ => installs_install (by decide) id

/-- The libraries that follow the base functions. -/
def openModules : M Unit := do
  openPackage
  installLibrary "coroutine" .coroutine coroutineNames
  installLibrary "table" .table tableNames
  openIo
  installLibrary "os" .os osNames
  openString
  openMath
  openUtf8
  installLibrary "debug" .debug debugNames

theorem openAll_eq : openAll = openBase >>= fun _ => openModules := rfl

theorem installs_openModules : Installs openModules := by
  refine installs_openPackage.bind fun _ => ?_
  refine (installs_installLibrary (by decide) _ (by decide)).bind fun _ => ?_
  refine (installs_installLibrary (by decide) _ (by decide)).bind fun _ => ?_
  refine installs_openIo.bind fun _ => ?_
  refine (installs_installLibrary (by decide) _ (by decide)).bind fun _ => ?_
  refine installs_openString.bind fun _ => installs_openMath.bind fun _ => ?_
  exact installs_openUtf8.bind fun _ => installs_installLibrary (by decide) _ (by decide)

theorem installs_openAll : Installs openAll :=
  installs_openBase.bind fun _ => installs_openModules

end Library

/-!
# The globals
-/

namespace World

/-- The globals are in a table without handlers. -/
structure Global (w : World) (g : TableId) : Prop where
  registry_live : w.registryLive = true
  entry_eq : w.registryTable.getInt globalsPlace = .table g
  live : w.heap.tables.live g.index = true
  plain : (w.heap.tables.get g.index).metatable = none

/-- The table has the function for warnings, under its name. -/
def Warns (w : World) (g : TableId) : Prop :=
  (w.heap.tables.get g.index).find (.ofText "warn") = .native (.base .warn)

variable {w w' : World} {g i : TableId}

theorem Installed.get (h : w.Installed w') (hlive : w.heap.tables.live i.index = true) :
    w'.heap.tables.live i.index = true ∧
      (w.heap.tables.get i.index).Fields (w'.heap.tables.get i.index) := by
  rcases h.tables _ _ (Store.find?_of_live hlive) with ⟨T', hT', hfields⟩
  rw [Store.get_of_find? hT']
  exact ⟨Store.live_of_find? hT', hfields⟩

theorem Global.installed (hglobal : w.Global g) (h : w.Installed w') : w'.Global g := by
  rcases h.get hglobal.registry_live with ⟨hregistry, hfields⟩
  rcases h.get hglobal.live with ⟨hlive, hfields'⟩
  refine ⟨?_, ?_, hlive, hfields'.metatable_eq.trans hglobal.plain⟩
  · unfold registryLive
    rw [h.registry_eq]
    exact hregistry
  · unfold registryTable
    rw [h.registry_eq]
    exact (hfields.getInt_eq _).trans hglobal.entry_eq

theorem Warns.installed (hwarns : w.Warns g) (hlive : w.heap.tables.live g.index = true)
    (h : w.Installed w') : w'.Warns g :=
  (h.get hlive).2.warn hwarns

end World

namespace Library

open Machine

variable {w : World} {g : TableId}

theorem returns_globals (h : w.Global g) : Returns globals w (.table g) w := by
  have hread := returns_registryValue w (.int globalsPlace)
  rwa [show (w.heap.tables.get w.registry.index).get (.int globalsPlace) = .table g from
    h.entry_eq] at hread

theorem warns_setField (hlive : w.heap.tables.live g.index = true) :
    exists w', Returns (setField g "warn" (.native (.base .warn))) w () w' ∧ w.Installed w' ∧
      w'.Warns g := by
  have hstandard : Standard "warn" (.native (.base .warn)) := ⟨by decide, fun _ => rfl⟩
  rcases (installs_put g hstandard).run w with ⟨_, w', hrun, hinstalled⟩
  rcases hrun.unique (returns_modifyTable w g _) with ⟨_, rfl⟩
  refine ⟨_, hrun, hinstalled, ?_⟩
  show ((w.heap.tables.modify g.index _).get g.index).find _ = _
  rw [Store.get_modify_self hlive, Table.find_put, if_pos rfl]

theorem warns_setFunctions (hlive : w.heap.tables.live g.index = true) :
    exists w', Returns (setFunctions g .base baseNames) w () w' ∧ w.Installed w' ∧ w'.Warns g := by
  have hmem : ("warn", BaseFn.warn) ∈ baseNames := by decide
  rcases List.append_of_mem hmem with ⟨before, after, hnames⟩
  have hbefore : Installs (setFunctions g .base before) :=
    installs_setFunctions g .base fun e he =>
      standard_baseNames e (hnames ▸ List.mem_append_left _ he)
  have hafter : Installs (setFunctions g .base after) :=
    installs_setFunctions g .base fun e he =>
      standard_baseNames e (hnames ▸ List.mem_append_right _ (List.mem_cons_of_mem _ he))
  rcases hbefore.run w with ⟨_, w₁, hfirst, hinstalled₁⟩
  rcases warns_setField (hinstalled₁.get hlive).1 with ⟨w₂, hset, hinstalled₂, hwarns⟩
  rcases hafter.run w₂ with ⟨_, w₃, hrest, hinstalled₃⟩
  have hinstalled := hinstalled₁.trans hinstalled₂
  refine ⟨w₃, ?_, hinstalled.trans hinstalled₃, hwarns.installed (hinstalled.get hlive).1 hinstalled₃⟩
  unfold setFunctions
  rw [hnames, List.forM_eq_forM, List.forM_append, List.forM_cons]
  exact Returns.bind hfirst (Returns.bind hset hrest)

theorem returns_openBase (h : w.Global g) :
    exists w', Returns openBase w () w' ∧ w.Installed w' ∧ w'.Warns g := by
  rcases warns_setFunctions h.live with ⟨w₁, hset, hinstalled₁, hwarns⟩
  rcases (installs_nameGlobals g).run w₁ with ⟨_, w₂, hrest, hinstalled₂⟩
  exact ⟨w₂, Returns.bind (returns_globals h) (Returns.bind hset hrest), hinstalled₁.trans hinstalled₂,
    hwarns.installed (hinstalled₁.get h.live).1 hinstalled₂⟩

/-- The function for warnings is a global of every machine with the standard library. -/
theorem returns_openAll (h : w.Global g) :
    exists w', Returns openAll w () w' ∧ w.Installed w' ∧ w'.Global g ∧ w'.Warns g := by
  rcases returns_openBase h with ⟨w₁, hbase, hinstalled₁, hwarns⟩
  rcases installs_openModules.run w₁ with ⟨_, w₂, hrest, hinstalled₂⟩
  have hinstalled := hinstalled₁.trans hinstalled₂
  exact ⟨w₂, Returns.bind hbase hrest, hinstalled, h.installed hinstalled,
    hwarns.installed (hinstalled₁.get h.live).1 hinstalled₂⟩

end Library

end LuaHost
