import LuaHost.Interface.Execution
import LuaHost.Proofs.Interface.Copying
import LuaHost.Proofs.Interface.StackEffect
import LuaHost.UserData.Binding

/-!
# Balance of the host's operations

How many values each operation of the host takes from a stack, and how many it
leaves there.  What it calls on the way is disciplined.
-/

namespace LuaHost

namespace Machine

variable {os : List ThreadId} {t : ThreadId} {j : Nat} {α β : Type}

theorem Shifts.forM {xs : List α} {f : α → M PUnit} (h : forall a, a ∈ xs ->
    Shifts os t (f a) j fun _ => j) : Shifts os t (xs.forM f) j fun _ => j := by
  induction xs with
  | nil => exact Shifts.pure _
  | cons a xs ih =>
      refine (h a (List.mem_cons_self ..)).bind fun _ => ih fun a' ha' => ?_
      exact h a' (List.mem_cons_of_mem _ ha')

theorem shifts_rotate (n : Int) : Shifts os t (rotate t (-2) n) (j + 2) fun _ => j + 2 := by
  refine ⟨fun {E m w a w'} _ hlive htop h => ?_⟩
  have hplace : Returns (place t (-2)) w (.slot ((w.thread t).top - 2)) w := by
    refine Returns.bind (returns_thread w t) ?_
    rw [if_neg (by decide), if_pos (by decide),
      show (((w.thread t).top : Int) + -2).toNat = (w.thread t).top - 2 by omega]
    exact Returns.pure _ w
  have h := hplace.ok_bind h
  rcases (returns_modifyThread w t _).ok_eq h with ⟨_, rfl⟩
  rw [World.thread_setThread hlive]
  refine ⟨(Thread.top_putSlots _ _ _).trans htop, World.carried_setThread hlive ?_⟩
  exact Thread.sameUpTo_putSlots _ _ (by omega)

theorem returns_place_top {w : World} {n : Nat} (htop : (w.thread t).top = n + (j + 1)) :
    exists i, n ≤ i ∧ Returns (place t (-1)) w (.slot i) w := by
  refine ⟨(w.thread t).top - 1, by omega, Returns.bind (returns_thread w t) ?_⟩
  rw [if_neg (by decide), if_pos (by decide),
    show (((w.thread t).top : Int) + -1).toNat = (w.thread t).top - 1 by omega]
  exact Returns.pure _ w

/-- A number on top becomes a string in its slot. -/
theorem shifts_toBytesAt : Shifts os t (toBytesAt t (-1)) (j + 1) fun _ => j + 1 := by
  refine ⟨fun {E n w a w'} _ hlive htop h => ?_⟩
  rcases returns_place_top htop with ⟨i, hi, hplace⟩
  have hread : Returns (valueAt t (.slot i)) w ((w.thread t).slot i) w := fun _ => rfl
  have hkept : (w.thread t).top = n + (j + 1) ∧ World.Carried os t n w w :=
    ⟨htop, World.Carried.refl os n hlive⟩
  have hstored : forall (s : Bytes), (do
      store t (.str s) (.slot i)
      return some s : M (Option Bytes)) E w = .ok a w' ->
      (w'.thread t).top = n + (j + 1) ∧ World.Carried os t n w w' := by
    intro s h
    rcases ok_bind h with ⟨_, w₁, hstore, h⟩
    cases h
    rcases carried_setSlot hlive hi hstore with ⟨htop', hcarried⟩
    exact ⟨htop'.trans htop, hcarried⟩
  have h := hread.ok_bind (hplace.ok_bind h)
  generalize (w.thread t).slot i = v at h
  cases v with
  | str s =>
      cases h
      exact hkept
  | int x => exact hstored _ h
  | float x => exact hstored _ h
  | _ =>
      cases h
      exact hkept

/-!
# Making the machine's form of a value
-/

theorem still_newTable (T : Table) : Still (newTable T) :=
  ⟨fun h => by cases h; rfl⟩

theorem still_newClosure (c : Closure) : Still (newClosure c) :=
  ⟨fun h => by cases h; rfl⟩

theorem still_newUserdata (u : UserData) : Still (newUserdata u) :=
  ⟨fun h => by cases h; rfl⟩

mutual

theorem still_ofHost (v : Data.Value) : Still (ofHost v) := by
  cases v with
  | nil => rw [ofHost]; exact Still.pure _
  | bool b => rw [ofHost]; exact Still.pure _
  | number n => cases n <;> rw [ofHost] <;> exact Still.pure _
  | string s => rw [ofHost]; exact Still.pure _
  | light p => rw [ofHost]; exact Still.pure _
  | table t =>
      rw [ofHost]
      exact (still_ofHostTable t).bind fun _ => Still.pure _

theorem still_ofHostTable (t : Data.Table) : Still (ofHostTable t) := by
  cases t with
  | mk a m =>
      rw [ofHostTable]
      refine (still_newTable _).bind fun id => (still_fillArray id a).bind fun _ => ?_
      exact (still_fillEntries id m).bind fun _ => Still.pure _

theorem still_fillArray (id : TableId) (a : Array Data.Value) : Still (fillArray id a) := by
  cases a with
  | mk vs =>
      rw [fillArray]
      exact still_fillValues id 1 vs

theorem still_fillValues (id : TableId) (i : Nat) (vs : List Data.Value) :
    Still (fillValues id i vs) := by
  cases vs with
  | nil => rw [fillValues]; exact Still.pure _
  | cons v vs =>
      rw [fillValues]
      refine (still_ofHost v).bind fun _ => (still_modifyTable id _).bind fun _ => ?_
      exact still_fillValues id (i + 1) vs

theorem still_fillEntries (id : TableId) (es : List (TableKey × Data.Value)) :
    Still (fillEntries id es) := by
  cases es with
  | nil => rw [fillEntries]; exact Still.pure _
  | cons e es =>
      rw [fillEntries]
      exact (still_fillEntry id e).bind fun _ => still_fillEntries id es

theorem still_fillEntry (id : TableId) (e : TableKey × Data.Value) : Still (fillEntry id e) := by
  cases e with
  | mk k v =>
      rw [fillEntry]
      exact (still_ofHost v).bind fun _ => still_modifyTable id _

end

end Machine

namespace Interface

open Machine

variable {os : List ThreadId} {t : ThreadId} {j : Nat} {α : Type}

/-!
# Operations that only look
-/

theorem still_abort (message : String) : Still (abort message : M α) :=
  still_throws fun _ _ _ _ => nofun

theorem still_height (t : ThreadId) : Still (height t) := (still_thread t).bind fun _ => Still.pure _

theorem still_log (level : LogLevel) (message : String) : Still (log level message) :=
  still_modify fun _ => rfl

theorem still_checkIndex (t : ThreadId) (idx : Int) : Still (checkIndex t idx) := by
  refine (still_height t).bind fun n => ?_
  split
  · exact still_abort _
  · exact Still.pure _

theorem still_look (t : ThreadId) (idx : Int) (f : Value → α) :
    Still (do checkIndex t idx; return f (← value t idx)) :=
  (still_checkIndex t idx).bind fun _ => (still_value t idx).bind fun _ => Still.pure _

theorem still_typeOf (t : ThreadId) (idx : Int) : Still (typeOf t idx) :=
  (still_checkIndex t idx).bind fun _ => still_kindAt t idx

theorem still_typeName (t : ThreadId) (idx : Int) : Still (typeName t idx) :=
  (still_kindAt t idx).bind fun _ => Still.pure _

theorem still_isInteger (t : ThreadId) (idx : Int) : Still (isInteger t idx) :=
  (still_value t idx).bind fun _ => Still.pure _

theorem still_tableAt (t : ThreadId) (idx : Int) : Still (tableAt t idx) :=
  (still_value t idx).bind fun _ => Still.pure _

theorem still_rawValue (t : ThreadId) (idx : Int) (k : Value) : Still (rawValue t idx k) := by
  refine (still_tableAt t idx).bind fun i => ?_
  cases i with
  | none => exact Still.pure _
  | some i => exact (still_table i).bind fun _ => Still.pure _

theorem still_blockOf (u : UserDataId) : Still (blockOf u) :=
  (still_userdata u).bind fun _ => Still.pure _

theorem still_hasNamedMetatable (v : Value) (name : Bytes) : Still (hasNamedMetatable v name) := by
  refine (still_metatableOf v).bind fun m => ?_
  cases m with
  | none => exact Still.pure _
  | some m => exact (still_registryValue _).bind fun _ => Still.pure _

theorem still_giveMetatable (v : Value) (m : Option TableId) :
    Still (Library.giveMetatable v m) := by
  have hset : Still (setMetatableOf v m) := by
    cases v <;> exact still_modify fun _ => rfl
  have hnote : forall (m : TableId), Still (Machine.noteFinalizer v m) := by
    intro m
    refine still_get.bind fun w => ?_
    split
    · exact Still.pure _
    · refine (still_table m).bind fun T => ?_
      dsimp only
      split
      · exact still_modify fun _ => rfl
      · exact Still.pure _
  refine hset.bind fun _ => ?_
  split
  · exact hnote _
  · exact hnote _
  · exact Still.pure _

/-!
# Room, pushes and pops
-/

theorem shifts_reserve (n : Nat) : Shifts os t (reserve t n) j fun _ => j := by
  refine shifts_alike fun h => ?_
  rcases ok_reserve h with ⟨th, hgranted, rfl⟩
  exact ⟨th, hgranted.toAlike, rfl⟩

theorem shifts_pushNew (v : Value) : Shifts os t (pushNew t v) j fun _ => j + 1 :=
  (shifts_reserve 1).bind fun _ => shifts_push v

theorem shifts_pop (n : Nat) : Shifts os t (pop t n) (j + n) fun _ => j := by
  refine (still_height t).shifts.bind fun h => ?_
  have hset : Shifts os t (setTop t (-(n : Int) - 1)) (j + n) fun _ => j := by
    refine shifts_modifyThread fun m th htop => ?_
    have hnew : ((th.top : Int) + (-(n : Int) - 1) + 1).toNat = m + j := by omega
    have hneg : ¬ (-(n : Int) - 1 ≥ 0) := by omega
    simp only [if_neg hneg, hnew]
    rw [if_neg (by omega)]
    exact ⟨rfl, rfl, fun _ _ _ => rfl⟩
  split
  · exact (still_abort _).shifts.bind fun _ => hset
  · exact hset

theorem shifts_pushNative (f : Native) (n : Nat) :
    Shifts os t (pushNative t f n) (j + n) fun _ => j + 1 := by
  refine (shifts_reserve 1).bind fun _ => ?_
  cases n with
  | zero => exact shifts_push _
  | succ n =>
      refine (still_thread t).shifts.bind fun th => (shifts_drop (n + 1)).bind fun _ => ?_
      exact (still_newClosure _).shifts.bind fun _ => shifts_push _

theorem shifts_insert : Shifts os t (insert t (-2)) (j + 2) fun _ => j + 2 :=
  (still_checkIndex t _).shifts.bind fun _ => shifts_rotate 1

theorem shifts_remove : Shifts os t (remove t (-2)) (j + 2) fun _ => j + 1 :=
  ((still_checkIndex t _).shifts.bind fun _ => shifts_rotate (-1)).bind fun _ =>
    shifts_pop (j := j + 1) 1

theorem shifts_pushValue (idx : Int) : Shifts os t (pushValue t idx) j fun _ => j + 1 :=
  (still_checkIndex t idx).shifts.bind fun _ => (shifts_reserve 1).bind fun _ =>
    (still_value t idx).shifts.bind fun v => shifts_push v

theorem shifts_toBytes : Shifts os t (toBytes t (-1)) (j + 1) fun _ => j + 1 :=
  (still_checkIndex t _).shifts.bind fun _ => shifts_toBytesAt

/-!
# Fields
-/

theorem shifts_replaceKey (idx : Int) : Shifts os t (replaceKey t idx) (j + 1) fun _ => j + 1 := by
  refine (still_value t idx).shifts.bind fun v => ?_
  refine ⟨fun {E n w a w'} hE hlive htop h => ?_⟩
  have htops : Returns (Machine.top t) w (w.thread t).top w := fun _ => rfl
  have hslot : forall i, Returns (slot t i) w ((w.thread t).slot i) w := fun _ _ => rfl
  have h := (hslot _).ok_bind (htops.ok_bind h)
  rcases ok_bind h with ⟨r, w₁, hindex, h⟩
  rcases (shifts_index v _).run hE hlive htop hindex with ⟨htop₁, hcarried⟩
  rcases ok_bind h with ⟨_, w₂, hset, h⟩
  cases h
  rcases carried_setSlot (n := n) hcarried.live (by omega) hset with ⟨htop', hcarried'⟩
  exact ⟨htop'.trans htop₁, hcarried.trans hcarried'⟩

theorem shifts_writePair (idx : Int) : Shifts os t (writePair t idx) (j + 2) fun _ => j := by
  refine (still_value t idx).shifts.bind fun v => ?_
  refine ((still_thread t).bind fun _ => Still.pure _).shifts.bind fun n => ?_
  refine ((still_thread t).bind fun _ => Still.pure _).shifts.bind fun k => ?_
  refine ((still_thread t).bind fun _ => Still.pure _).shifts.bind fun x => ?_
  exact (shifts_assignLoop maxChain v k x .unknown).bind fun _ => shifts_drop 2

theorem shifts_getField (idx : Int) (name : String) :
    Shifts os t (getField t idx name) j fun _ => j + 1 :=
  (still_checkIndex t idx).shifts.bind fun _ => (still_absIndex t idx).shifts.bind fun i =>
    (shifts_pushNew _).bind fun _ => shifts_replaceKey i

theorem shifts_setField (idx : Int) (name : String) :
    Shifts os t (setField t idx name) (j + 1) fun _ => j :=
  (still_checkIndex t idx).shifts.bind fun _ => (still_absIndex t idx).shifts.bind fun i =>
    (shifts_pushNew _).bind fun _ => shifts_insert.bind fun _ => shifts_writePair i

theorem shifts_getTable (idx : Int) : Shifts os t (getTable t idx) (j + 1) fun _ => j + 1 :=
  (still_checkIndex t idx).shifts.bind fun _ => shifts_replaceKey idx

theorem shifts_setTable (idx : Int) : Shifts os t (setTable t idx) (j + 2) fun _ => j :=
  (still_checkIndex t idx).shifts.bind fun _ => shifts_writePair idx

theorem shifts_rawGetInt (idx : Int) (n : Int64) :
    Shifts os t (rawGetInt t idx n) j fun _ => j + 1 :=
  (still_checkIndex t idx).shifts.bind fun _ => (shifts_reserve 1).bind fun _ =>
    (still_rawValue t idx _).shifts.bind fun v => (shifts_push v).bind fun _ => Shifts.pure _

theorem shifts_len (idx : Int) : Shifts os t (len t idx) j fun _ => j + 1 :=
  (still_checkIndex t idx).shifts.bind fun _ => (shifts_reserve 1).bind fun _ =>
    (still_value t idx).shifts.bind fun v => (shifts_lengthOf v _).bind fun r => shifts_push r

/-- A key on top gives way to the next entry, or to nothing. -/
theorem shifts_next (idx : Int) :
    Shifts os t (next t idx) (j + 1) fun more => if more then j + 2 else j := by
  refine (still_checkIndex t idx).shifts.bind fun _ => (shifts_reserve 1).bind fun _ => ?_
  refine (still_tableAt t idx).shifts.bind fun i => ?_
  cases i with
  | none => exact (shifts_drop 1).bind fun _ => Shifts.answer rfl
  | some i =>
      refine (still_value t _).shifts.bind fun k => (still_table i).shifts.bind fun T => ?_
      split
      · exact shifts_runError t _
      · refine (shifts_drop 1).bind fun _ => ?_
        split
        · exact Shifts.answer rfl
        · exact (shifts_push _).bind fun _ => (shifts_push _).bind fun _ => Shifts.answer rfl

theorem shifts_createTable (narr nrec : Nat) :
    Shifts os t (createTable t narr nrec) j fun _ => j + 1 := by
  have hnew : Shifts os t (do push t (.table (← newTable (Table.withRoom narr nrec)))) j
      fun _ => j + 1 :=
    (still_newTable _).shifts.bind fun _ => shifts_push _
  have hsmall : Shifts os t (do
      if narr > maxRoom || nrec > maxRoom then memoryError t
      push t (.table (← newTable (Table.withRoom narr nrec)))) j fun _ => j + 1 := by
    dsimp only
    split
    · exact (shifts_memoryError t).bind fun _ => hnew
    · exact hnew
  refine (shifts_reserve 1).bind fun _ => ?_
  dsimp only
  split
  · exact (shifts_runError t _).bind fun _ => hsmall
  · exact hsmall

/-!
# Metatables
-/

theorem shifts_newMetatable (name : String) :
    Shifts os t (newMetatable t name) j fun _ => j + 1 := by
  refine (shifts_reserve 2).bind fun _ => (still_registryValue _).shifts.bind fun v => ?_
  split
  · exact (shifts_push v).bind fun _ => Shifts.pure _
  · refine (still_newTable _).shifts.bind fun m => ?_
    exact (still_setRegistryValue _ _).shifts.bind fun _ =>
      (shifts_push _).bind fun _ => Shifts.pure _

theorem shifts_setMetatable (idx : Int) : Shifts os t (setMetatable t idx) (j + 1) fun _ => j := by
  refine (still_checkIndex t idx).shifts.bind fun _ => (still_value t idx).shifts.bind fun v => ?_
  refine (still_value t _).shifts.bind fun m => ?_
  split
  · exact (still_giveMetatable v _).shifts.bind fun _ => shifts_drop 1
  · exact (still_giveMetatable v _).shifts.bind fun _ => shifts_drop 1

theorem shifts_testUserData (idx : Int) (name : String) :
    Shifts os t (testUserData t idx name) j fun _ => j := by
  refine (still_checkIndex t idx).shifts.bind fun _ => (shifts_reserve 2).bind fun _ => ?_
  refine (still_value t idx).shifts.bind fun v => ?_
  have hanswer : forall {x : M Bool}, Still x ->
      Shifts os t (do return if ← x then some v else none) j fun _ => j :=
    fun hx => hx.shifts.bind fun _ => Shifts.pure _
  cases v with
  | userdata u => exact hanswer (still_hasNamedMetatable _ _)
  | light p =>
      dsimp only
      split
      · exact hanswer (Still.pure _)
      · exact hanswer (still_hasNamedMetatable _ _)
  | _ => exact hanswer (Still.pure _)

/-!
# Globals
-/

theorem shifts_pushGlobals : Shifts os t (pushGlobals t) j fun _ => j + 1 :=
  (shifts_rawGetInt _ _).bind fun _ => Shifts.pure _

theorem shifts_getGlobal (name : String) : Shifts os t (getGlobal t name) j fun _ => j + 1 :=
  shifts_pushGlobals.bind fun _ => (shifts_getField _ name).bind fun _ =>
    shifts_remove.bind fun _ => Shifts.pure _

theorem shifts_setGlobal (name : String) : Shifts os t (setGlobal t name) (j + 1) fun _ => j :=
  shifts_pushGlobals.bind fun _ => shifts_insert.bind fun _ => (shifts_setField _ name).bind fun _ =>
    shifts_pop 1

/-!
# The registry
-/

theorem still_register (v : Value) : Still (register v) := by
  have hfirst : Still firstFree := by
    refine (still_registryValue _).bind fun x => ?_
    split
    · exact Still.pure _
    · exact (still_setRegistryValue _ _).bind fun _ => Still.pure _
  have hwrite : forall id : RefId, Still (do setRegistryValue (refKey id) v; return id) :=
    fun id => (still_setRegistryValue _ v).bind fun _ => Still.pure _
  refine hfirst.bind fun id => ?_
  dsimp only
  split
  · exact (still_registryValue _).bind fun _ => (still_setRegistryValue _ _).bind fun _ =>
      (Still.pure _).bind hwrite
  · exact still_get.bind fun _ => (still_tableLength _).bind fun _ => (Still.pure _).bind hwrite

theorem shifts_registryRef : Shifts os t (registryRef t) (j + 1) fun _ => j := by
  have htake : Shifts os t (do
      let v ← Machine.pop t
      let id ← if v.isNil then pure nilRef else register v
      log .trace ("ref " ++ toString id)
      return id) (j + 1) fun _ => j := by
    refine Machine.shifts_pop.bind fun v => ?_
    have hanswer : forall {x : M RefId}, Still x -> Shifts os t (do
        let id ← x
        log .trace ("ref " ++ toString id)
        return id) j fun _ => j :=
      fun hx => hx.shifts.bind fun _ => (still_log _ _).shifts.bind fun _ => Shifts.pure _
    dsimp only
    split
    · exact hanswer (Still.pure _)
    · exact hanswer (still_register v)
  refine (still_height t).shifts.bind fun _ => ?_
  split
  · exact (still_abort _).shifts.bind fun _ => htake
  · exact htake

theorem shifts_pushRef (id : RefId) : Shifts os t (pushRef t id) j fun _ => j + 1 := by
  unfold pushRef
  split
  · exact (shifts_pushNew _).bind fun _ => Shifts.pure _
  · exact shifts_rawGetInt _ _

theorem shifts_shareFlag : Shifts os t (shareFlag t) j fun _ => j := by
  refine (shifts_getField _ _).bind fun _ => (still_look t _ _).shifts.bind fun p => ?_
  have hshared : Still (modify fun w : World =>
      { w with liveness := w.liveness.map fun l => { l with owners := l.owners + 1 } }) :=
    still_modify fun _ => rfl
  refine (shifts_pop 1).bind fun _ => ?_
  split
  · exact Shifts.pure _
  · exact hshared.shifts.bind fun _ => Shifts.pure _

theorem shifts_mainThread : Shifts os t (mainThread t) j fun _ => j :=
  (shifts_rawGetInt _ _).bind fun _ => (still_look t _ _).shifts.bind fun _ =>
    (shifts_pop 1).bind fun _ => Shifts.pure _

/-!
# Copies
-/

theorem shifts_needRoom (n : Nat) : Shifts os t (needRoom t n) j fun _ => j := by
  have hpushes : forall (ks : List Nat) (j : Nat),
      Shifts os t (ks.forM fun _ => pushNil t) j fun _ => j + ks.length := by
    intro ks
    induction ks with
    | nil => exact fun _ => Shifts.pure _
    | cons k ks ih =>
        intro j
        have hrest := ih (j + 1)
        rw [Nat.add_assoc, Nat.add_comm 1] at hrest
        exact (shifts_pushNew _).bind fun _ => hrest
  have hall := hpushes (List.range n) j
  rw [List.length_range] at hall
  exact hall.bind fun _ => shifts_drop n

theorem shifts_pushHost (v : Data.Value) : Shifts os t (pushHost t v) j fun _ => j + 1 :=
  (shifts_needRoom _).bind fun _ => (still_ofHost v).shifts.bind fun _ => shifts_push _

theorem shifts_copyTableOut (i : TableId) : Shifts os t (copyTableOut t i) j fun _ => j := by
  have hnote : forall l, Still (modify fun w : World => { w with log := l ++ w.log }) :=
    fun _ => still_modify fun _ => rfl
  exact still_get.shifts.bind fun _ => (shifts_needRoom _).bind fun _ =>
    (hnote _).shifts.bind fun _ => Shifts.pure _

theorem shifts_toHost (idx : Int) : Shifts os t (toHost t idx) j fun _ => j := by
  refine (still_checkIndex t idx).shifts.bind fun _ => (still_value? t idx).shifts.bind fun v => ?_
  unfold copyValueOut
  split
  · exact Shifts.pure _
  · exact (shifts_copyTableOut _).bind fun _ => Shifts.pure _
  · exact Shifts.pure _

theorem shifts_copyTable (idx : Int) : Shifts os t (copyTable t idx) j fun _ => j := by
  refine (still_typeOf t idx).shifts.bind fun k => (still_value t idx).shifts.bind fun v => ?_
  split
  · exact shifts_copyTableOut _
  · exact (still_typeName t idx).shifts.bind fun _ => (still_abort _).shifts

/-!
# Host functions
-/

theorem shifts_pushFunction (f : HostFn) : Shifts os t (pushFunction t f) j fun _ => j + 1 :=
  (shifts_pushNew _).bind fun _ => shifts_pushNative _ 1

theorem shifts_setFunction (idx : Int) (name : String) (f : HostFn) :
    Shifts os t (setFunction t idx name f) j fun _ => j :=
  (still_absIndex t idx).shifts.bind fun i => (shifts_pushFunction f).bind fun _ =>
    shifts_setField i name

theorem shifts_registerGlobal (name : String) (f : HostFn) :
    Shifts os t (registerGlobal t name f) j fun _ => j :=
  (shifts_pushFunction f).bind fun _ => shifts_setGlobal name

theorem shifts_newLibrary (fs : List (String × HostFn)) :
    Shifts os t (newLibrary t fs) j fun _ => j + 1 :=
  (shifts_createTable _ _).bind fun _ => Shifts.forM fun f _ => shifts_setFunction _ f.1 f.2

theorem shifts_preload (name : String) (opener : HostFn) :
    Shifts os t (preload t name opener) j fun _ => j := by
  refine (shifts_getGlobal _).bind fun k => ?_
  split
  · exact (shifts_pop 1).bind fun _ => Shifts.pure _
  · refine (shifts_getField _ _).bind fun k' => ?_
    split
    · exact (shifts_pop 2).bind fun _ => Shifts.pure _
    · exact (shifts_setFunction _ name opener).bind fun _ => (shifts_pop 2).bind fun _ =>
        Shifts.pure _

/-!
# Bound userdata
-/

theorem shifts_toUserData (type : HostType) (idx : Int) :
    Shifts os t (toUserData t type idx) j fun _ => j := by
  have hbound : Shifts os t (boundAt t idx) j fun _ => j := by
    refine (shifts_testUserData idx _).bind fun v => ?_
    split
    · exact (still_blockOf _).shifts.bind fun _ => Shifts.pure _
    · exact Shifts.pure _
  refine hbound.bind fun b => ?_
  cases b <;> exact Shifts.pure _

theorem shifts_pushSharedMetatable : Shifts os t (pushSharedMetatable t) j fun _ => j + 1 := by
  refine (shifts_newMetatable _).bind fun new => ?_
  cases new with
  | false => exact Shifts.pure _
  | true =>
      refine Shifts.bind (Shifts.forM fun m _ => ?_) fun _ => (still_log _ _).shifts
      exact (shifts_pushNative _ 0).bind fun _ => shifts_setField _ _

theorem shifts_pushUserData (type : HostType) (v : HostValue) (userValues : Nat) :
    Shifts os t (pushUserData t type v userValues) j fun _ => j + 1 :=
  (shifts_reserve 2).bind fun _ => (still_newUserdata _).shifts.bind fun _ =>
    (shifts_push _).bind fun _ => shifts_pushSharedMetatable.bind fun _ =>
      (shifts_setMetatable _).bind fun _ => Shifts.pure _

/-!
# Statuses
-/

/-- What is a string already is only read. -/
theorem reads_toText {w w' : World} {idx : Int} {E : Engine}
    (h : typeOf t idx E w = .ok .string w') : w' = w ∧ Reads (toText t idx) w := by
  rcases ok_bind h with ⟨_, w₁, hcheck, h⟩
  rcases ok_checkIndex hcheck with ⟨hvalid, rfl⟩
  rcases reads_place t idx w with ⟨p, hp⟩
  rcases reads_valueAt t p w with ⟨v, hv⟩
  have hkind : Returns (kindAt t idx) w (if p = .nowhere then .none else v.kind) w := by
    unfold kindAt value?
    rw [bind_assoc]
    refine Returns.bind hp ?_
    cases p with
    | nowhere => exact Returns.pure _ w
    | _ =>
        rw [bind_assoc]
        exact Returns.bind hv (Returns.pure _ w)
  rcases hkind.ok_eq h with ⟨hstring, rfl⟩
  refine ⟨rfl, ?_⟩
  have hbytes : Reads (toBytesAt t idx) w := by
    split at hstring
    · cases hstring
    · cases v with
      | str s => exact ⟨some s, Returns.bind hp (Returns.bind hv (Returns.pure _ w))⟩
      | _ => cases hstring
  exact ((Reads.bind ⟨(), returns_checkIndex hvalid⟩ fun _ => hbytes).bind fun _ => Reads.pure _ w)

/-- A message that is taken from the stack is a string already. -/
theorem shifts_checkStatus (s : Status) : Shifts os t (checkStatus t s) j fun _ => j := by
  have hanswer : forall message, Still (return Fault.ofStatus message s : M (Option Fault)) :=
    fun _ => Still.pure _
  unfold checkStatus
  split
  · exact Shifts.pure _
  · refine Still.shifts ⟨fun {E w a w'} h => ?_⟩
    rcases ok_bind h with ⟨k, w₁, hkind, hrest⟩
    cases k with
    | string =>
        rcases reads_toText hkind with ⟨rfl, text, htext⟩
        exact ((Still.pure _).bind hanswer).threads_eq (htext.ok_bind hrest)
    | _ =>
        exact (((Still.pure _).bind hanswer).threads_eq hrest).trans
          ((still_typeOf t _).threads_eq hkind)

end Interface

end LuaHost
