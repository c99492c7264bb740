import LuaHost.Handle.Typed
import LuaHost.Proofs.Handle.Creating
import LuaHost.Proofs.UserData.Lifetimes

/-!
# Finding a bound value

Host code and the handlers of the shared metatable look at values before they
do anything else.  A look needs room for two values on the stack; without that
room the host code ends, and nothing but the room has changed either way.
-/

namespace LuaHost

/-!
# Looks
-/

namespace Thread

/-- Two states of a thread with the same values, where the second is ready for
as many more as the first. -/
structure Looked (th th' : Thread) : Prop extends th.Alike th' where
  ready : forall n, th.Ready n -> th'.Ready n

theorem Looked.refl (th : Thread) : th.Looked th := ⟨Alike.refl th, fun _ h => h⟩

theorem Looked.trans {th th' th'' : Thread} (h : th.Looked th') (h' : th'.Looked th'') :
    th.Looked th'' :=
  ⟨h.toAlike.trans h'.toAlike, fun n hready => h'.ready n (h.ready n hready)⟩

end Thread

namespace Machine

variable {α β : Type} {w w' : World}

/-- After a look at the stack of `t`, which needs room for `n` values, the
computation goes on as `y`; without that room it ends with a panic.  The look
changes how much room there is, and nothing else. -/
def Looks (t : ThreadId) (n : Nat) (x y : M α) (w : World) : Prop :=
  (exists th, (w.thread t).Looked th ∧ forall E, x E w = y E (w.setThread t th)) ∨
    (¬ (w.thread t).Ready n ∧ exists th p, (w.thread t).Alike th ∧
      forall E, x E w = .error (.panic p) (w.setThread t th))

theorem Looks.of_eq (t : ThreadId) (n : Nat) {x y : M α} (h : forall E, x E w = y E w) :
    Looks t n x y w := by
  refine Or.inl ⟨w.thread t, Thread.Looked.refl _, fun E => ?_⟩
  rw [World.setThread_thread]
  exact h E

theorem Looks.refl (t : ThreadId) (n : Nat) (x : M α) (w : World) : Looks t n x x w :=
  Looks.of_eq t n fun _ => rfl

theorem Looks.bind {t : ThreadId} {n : Nat} {x y : M α} (h : Looks t n x y w) (f : α → M β) :
    Looks t n (x >>= f) (y >>= f) w := by
  rcases h with ⟨th, hlooked, hrun⟩ | ⟨hnot, th, p, halike, hrun⟩
  · exact Or.inl ⟨th, hlooked, fun E => bind_congr_of_eq (hrun E) f⟩
  · exact Or.inr ⟨hnot, th, p, halike, fun E => bind_of_error (hrun E) f⟩

theorem Looks.after {t : ThreadId} {n : Nat} {x : M α} {a : α} {f : α → M β} {y : M β}
    (hx : Returns x w a w) (h : Looks t n (f a) y w) : Looks t n (x >>= f) y w := by
  have hrun : forall E, (x >>= f) E w = f a E w := fun E => bind_of_ok (hx E) f
  unfold Looks
  simp only [hrun]
  exact h

/-- A second look finds the room that the first one has made. -/
theorem Looks.trans {t : ThreadId} (hlive : w.liveThread t = true) {n : Nat} {x y z : M α}
    (h : Looks t n x y w)
    (h' : forall th, (w.thread t).Looked th -> Looks t n y z (w.setThread t th)) :
    Looks t n x z w := by
  rcases h with ⟨th, hlooked, hrun⟩ | hfails
  · have hnext := h' th hlooked
    unfold Looks at hnext
    rw [World.thread_setThread hlive] at hnext
    rcases hnext with ⟨th', hlooked', hrun'⟩ | ⟨hnot, th', p, halike', hrun'⟩
    · refine Or.inl ⟨th', hlooked.trans hlooked', fun E => ?_⟩
      rw [hrun E, hrun' E, World.setThread_setThread]
    · refine Or.inr ⟨fun hready => hnot (hlooked.ready n hready), th', p,
        hlooked.toAlike.trans halike', fun E => ?_⟩
      rw [hrun E, hrun' E, World.setThread_setThread]
  · exact Or.inr hfails

/-- After a look, one computation is as good as another that does the same. -/
theorem Looks.congr {t : ThreadId} {n : Nat} {x y z : M α} (h : Looks t n x y w)
    (heq : forall th E, (w.thread t).Alike th ->
      y E (w.setThread t th) = z E (w.setThread t th)) : Looks t n x z w := by
  rcases h with ⟨th, hlooked, hrun⟩ | hfails
  · exact Or.inl ⟨th, hlooked, fun E => (hrun E).trans (heq th E hlooked.toAlike)⟩
  · exact Or.inr hfails

theorem ready_of_checkStack {t : ThreadId} (hlive : w.liveThread t = true) {n m : Nat} {E : Engine}
    (h : checkStack t n E w = .ok true w') (hready : (w.thread t).Ready m) :
    (w'.thread t).Ready m := by
  have hclaim : forall {w₁ : World}, w₁.liveThread t = true -> (w₁.thread t).Ready m ->
      ((w₁.setThread t (claimed (w₁.thread t) n)).thread t).Ready m := by
    intro w₁ hlive₁ hready₁
    rw [World.thread_setThread hlive₁]
    exact hready₁.imp (fun h => h) fun h => ⟨h.room_le, h.top_le⟩
  unfold checkStack at h
  have h := (returns_thread w t).ok_bind h
  split at h
  · have h := (Returns.pure true w).ok_bind h
    rcases ok_bind h with ⟨_, w₁, hmodify, hpure⟩
    cases hpure
    rcases (returns_modifyThread w t _).ok_eq hmodify with ⟨_, rfl⟩
    exact hclaim hlive hready
  · next hroom =>
      rcases ok_bind h with ⟨ok, w₁, hgrow, h⟩
      rcases ok_growStack hgrow with ⟨room, rfl, hfits⟩
      cases ok with
      | false => cases h
      | true =>
          rcases ok_bind h with ⟨_, w₂, hmodify, hpure⟩
          cases hpure
          rcases (returns_modifyThread _ t _).ok_eq hmodify with ⟨_, rfl⟩
          refine hclaim (by rw [World.liveThread_setThread, hlive]) ?_
          rw [World.thread_setThread hlive]
          -- the stack had no room for `n` values, so one that had room for `m` had to grow
          refine Or.inr ⟨(hfits rfl).1, ?_⟩
          have htop := (hfits rfl).2
          rcases hready with hready | hready
          · show (w.thread t).top + m ≤ maxStack
            omega
          · exact hready.top_le

theorem returns_checkStack_full {t : ThreadId} {n : Nat} (h : ¬ (w.thread t).Ready n) :
    exists th, (w.thread t).Alike th ∧ Returns (checkStack t n) w false (w.setThread t th) := by
  have hroom : ¬ (w.thread t).room ≥ (w.thread t).top + n + 1 := fun hfits => h (Or.inl hfits)
  have hgrow : exists room, Returns (growStack t n) w false
      (w.setThread t { w.thread t with room }) := by
    by_cases hover : (w.thread t).room > maxStack
    · refine ⟨(w.thread t).room, ?_⟩
      rw [show w.setThread t { w.thread t with room := (w.thread t).room } = w from
        World.setThread_thread w t]
      unfold growStack
      refine Returns.bind (returns_thread w t) ?_
      rw [if_pos hover]
      exact Returns.pure _ w
    · refine ⟨errorStack, ?_⟩
      unfold growStack
      refine Returns.bind (returns_thread w t) ?_
      rw [if_neg hover]
      dsimp only
      rw [if_neg]
      · exact Returns.bind (returns_modifyThread w t _) (Returns.pure _ _)
      · rw [Bool.and_eq_true, decide_eq_true_eq, decide_eq_true_eq]
        intro hfits
        exact h (Or.inr ⟨Nat.le_of_not_gt hover, Nat.le_trans (Nat.le_max_right _ _) hfits.2⟩)
  rcases hgrow with ⟨room, hgrow⟩
  refine ⟨{ w.thread t with room }, ⟨rfl, rfl, rfl⟩, ?_⟩
  unfold checkStack
  refine Returns.bind (returns_thread w t) ?_
  rw [if_neg hroom]
  exact Returns.bind hgrow (Returns.pure _ _)

end Machine

namespace Interface

open Machine

theorem looks_reserve {w : World} {t : ThreadId} (hlive : w.liveThread t = true) {n : Nat}
    (hn : n < maxStack) : Looks t n (reserve t n) (pure ()) w := by
  by_cases hready : (w.thread t).Ready n
  · rcases returns_checkStack hlive hready hn with ⟨th, halike, _, hrun⟩
    refine Or.inl ⟨th, ⟨halike, fun m hm => ?_⟩, fun E => bind_of_ok (hrun E) _⟩
    have hkeep := ready_of_checkStack hlive
      (hrun ⟨fun _ _ _ _ => throw .exhausted, fun _ _ _ => throw .exhausted⟩) hm
    rwa [World.thread_setThread hlive] at hkeep
  · rcases returns_checkStack_full hready with ⟨th, halike, hrun⟩
    exact Or.inr ⟨hready, th, _, halike, fun E => bind_of_ok (hrun E) _⟩

theorem looks_reserve_bind {α : Type} {w : World} {t : ThreadId} (hlive : w.liveThread t = true)
    {n : Nat} (hn : n < maxStack) {f : Unit → M α} {a : α}
    (hf : forall th, (w.thread t).Alike th ->
      Returns (f ()) (w.setThread t th) a (w.setThread t th)) :
    Looks t n (reserve t n >>= f) (pure a) w := by
  refine ((looks_reserve hlive hn).bind f).trans hlive fun th hlooked => ?_
  exact Looks.after (Returns.pure () _) (Looks.of_eq t n (hf th hlooked.toAlike))

end Interface

/-!
# Bound values
-/

namespace World

/-- The living bound userdata that a value is, with its block. -/
def livingTo (w : World) (v : Value) : Option (UserDataId × Block) :=
  (w.boundTo v).filter fun ub => ub.2.alive

/-- The host value that is recovered from a value as one of a type. -/
def recovered (w : World) (type : HostType) (v : Value) : Option (UserDataId × HostValue) :=
  ((w.livingTo v).filter fun ub => ub.2.type == type).map fun ub => (ub.1, ub.2.value)

theorem livingTo_eq_some {w : World} {v : Value} {u : UserDataId} {b : Block} :
    w.livingTo v = some (u, b) ↔
      v = .userdata u ∧ w.isShared u = true ∧ w.block? u = some b ∧ b.alive = true := by
  unfold livingTo
  rw [Option.filter_eq_some_iff]
  cases v with
  | userdata u' =>
      unfold boundTo
      dsimp only
      cases hshared : w.isShared u' with
      | false =>
          rw [if_neg Bool.false_ne_true]
          constructor
          · intro h
            cases h.1
          · rintro ⟨heq, hshared', _⟩
            cases heq
            rw [hshared] at hshared'
            cases hshared'
      | true =>
          rw [if_pos rfl]
          constructor
          · rintro ⟨heq, halive⟩
            cases hb : w.block? u' with
            | none =>
                rw [hb] at heq
                cases heq
            | some b' =>
                rw [hb] at heq
                cases heq
                exact ⟨rfl, hshared, hb, halive⟩
          · rintro ⟨heq, _, hb, halive⟩
            cases heq
            rw [hb]
            exact ⟨rfl, halive⟩
  | _ =>
      constructor
      · intro h
        cases h.1
      · intro h
        cases h.1

theorem recovered_eq_some {w : World} {type : HostType} {v : Value} {u : UserDataId}
    {x : HostValue} :
    w.recovered type v = some (u, x) ↔
      exists b, w.livingTo v = some (u, b) ∧ b.type = type ∧ b.value = x := by
  unfold recovered
  constructor
  · intro h
    rcases Option.map_eq_some_iff.mp h with ⟨⟨u', b⟩, hfilter, heq⟩
    rcases Option.filter_eq_some_iff.mp hfilter with ⟨hliving, htype⟩
    cases heq
    exact ⟨b, hliving, eq_of_beq htype, rfl⟩
  · rintro ⟨b, hliving, rfl, rfl⟩
    rw [hliving, Option.filter_some, if_pos (beq_self_eq_true _)]
    rfl

theorem livingTo_setThread (w : World) (t : ThreadId) (th : Thread) (v : Value) :
    (w.setThread t th).livingTo v = w.livingTo v := rfl

end World

namespace Interface

open Machine

variable {w : World} {t : ThreadId}

theorem looks_boundAt (hlive : w.liveThread t = true) {idx : Int}
    (hvalid : validIndex (w.thread t).height idx = true) :
    Looks t 2 (boundAt t idx) (pure (w.boundTo (w.valueAt t idx))) w := by
  unfold boundAt testUserData
  simp only [bind_assoc]
  refine Looks.after (returns_checkIndex hvalid) ?_
  refine looks_reserve_bind hlive (by decide) fun th halike => ?_
  have hread := returns_value_at (w.setThread t th) t idx
  rw [World.valueAt_alike halike] at hread
  refine Returns.bind hread ?_
  cases w.valueAt t idx with
  | userdata u =>
      refine Returns.bind (Returns.bind (returns_hasNamedMetatable _ u) (Returns.pure _ _)) ?_
      show Returns _ _ (if w.isShared u then _ else _) _
      rw [show (w.setThread t th).isShared u = w.isShared u from rfl]
      cases w.isShared u with
      | false => exact Returns.pure _ _
      | true => exact Returns.bind (returns_blockOf _ u) (Returns.pure _ _)
  | light p =>
      -- light userdata may pass the test, but has no block
      dsimp only
      by_cases hp : (p == 0) = true
      · rw [if_pos hp]
        exact Returns.bind (Returns.bind (Returns.pure false _) (Returns.pure _ _))
          (Returns.pure _ _)
      · rw [if_neg hp]
        rcases reads_hasNamedMetatable (w.setThread t th) (.light p) (cutName sharedMetatable) with
          ⟨ok, hnamed⟩
        refine Returns.bind (Returns.bind hnamed (Returns.pure _ _)) ?_
        cases ok <;> exact Returns.pure _ _
  | _ => exact Returns.pure _ _

/-- A value is recovered from an index if it is the living one of the type there. -/
theorem looks_toUserData (hlive : w.liveThread t = true) (type : HostType) {idx : Int}
    (hvalid : validIndex (w.thread t).height idx = true) :
    Looks t 2 (toUserData t type idx) (pure (w.recovered type (w.valueAt t idx))) w := by
  unfold toUserData
  refine ((looks_boundAt hlive hvalid).bind _).congr fun th E _ => ?_
  unfold World.recovered World.livingTo
  cases w.boundTo (w.valueAt t idx) with
  | none => rfl
  | some ub =>
      rcases ub with ⟨u, b⟩
      rw [Option.filter_some]
      show (pure _ : M _) E _ = _
      cases b.alive with
      | false => rfl
      | true =>
          cases htype : b.type == type with
          | false =>
              rw [if_pos rfl, Option.filter_some, htype]
              rfl
          | true =>
              rw [if_pos rfl, Option.filter_some, htype]
              rfl

/-!
# Operands
-/

theorem looks_findBound {idxs : List Int} :
    forall {w : World}, w.liveThread t = true ->
      (forall i, i ∈ idxs -> validIndex (w.thread t).height i = true) ->
      Looks t 2 (findBound t idxs)
        (pure (idxs.findSome? fun i => w.livingTo (w.valueAt t i))) w := by
  induction idxs with
  | nil => exact fun _ _ => Looks.refl t 2 _ _
  | cons i is ih =>
      intro w hlive hvalid
      unfold findBound
      refine ((looks_boundAt hlive (hvalid i (List.mem_cons_self ..))).bind _).trans hlive ?_
      intro th hlooked
      have hlive' : (w.setThread t th).liveThread t = true := by
        rw [World.liveThread_setThread, hlive]
      have hheight : ((w.setThread t th).thread t).height = (w.thread t).height := by
        rw [World.thread_setThread hlive]
        unfold Thread.height
        rw [hlooked.top_eq, hlooked.base_eq]
      have hrest := ih hlive' fun j hj => by
        rw [hheight]
        exact hvalid j (List.mem_cons_of_mem i hj)
      simp only [World.valueAt_alike hlooked.toAlike, World.livingTo_setThread] at hrest
      rw [List.findSome?_cons]
      refine Looks.after (Returns.pure _ _) ?_
      unfold World.livingTo at hrest ⊢
      cases w.boundTo (w.valueAt t i) with
      | none => exact hrest
      | some ub =>
          rcases ub with ⟨u, b⟩
          rw [Option.filter_some]
          dsimp only
          cases b.alive with
          | false => exact hrest
          | true => exact Looks.refl t 2 _ _

/-!
# Handlers
-/

end Interface

namespace World

/-- The operand of the running handler that an operation is passed on for. -/
def firstLiving (w : World) (t : ThreadId) : Option (UserDataId × Block) :=
  ([1, 2].take (w.thread t).height).findSome? fun i => w.livingTo (w.valueAt t i)

end World

namespace Interface

open Machine

variable {w : World} {t : ThreadId} {types : BoundTypes}

/-- The text that stands for the operand of a handler that finds no living value. -/
def absentText (w : World) (t : ThreadId) : String :=
  if (w.thread t).height ≥ 1 then
    (w.valueAt t 1).kind.name ++ ": " ++ Value.addressText (match (w.valueAt t 1).address with
      | some 0 => none
      | p => p)
  else "userdata"

theorem returns_typeName_first (h : (w.thread t).height ≥ 1) :
    Returns (typeName t 1) w (w.valueAt t 1).kind.name w := by
  have hplace : w.placeOf (w.thread t) 1 = .slot ((w.thread t).frame.func + 1) := by
    unfold World.placeOf
    rw [if_pos (by decide), if_pos]
    · rfl
    · unfold Thread.height Thread.base at h
      show (w.thread t).frame.func + 1 < _
      omega
  have hread : Returns (value? t 1) w (some (w.valueAt t 1)) w := by
    unfold World.valueAt
    refine Returns.bind (returns_place w t 1) ?_
    rw [hplace]
    exact Returns.bind (returns_valueAt w t _) (Returns.pure _ w)
  exact Returns.bind (Returns.bind hread (Returns.pure _ w)) (Returns.pure _ w)

theorem absentText_alike {th : Thread} (hlive : w.liveThread t = true)
    (h : (w.thread t).Alike th) : absentText (w.setThread t th) t = absentText w t := by
  unfold absentText
  rw [World.valueAt_alike h, World.thread_setThread hlive]
  unfold Thread.height
  rw [h.top_eq, h.base_eq]

/-- Without a living value there are no results, or a text where one is asked for. -/
theorem answerAbsent_eq (w : World) (t : ThreadId) (m : MetaMethod) (E : Engine) :
    answerAbsent m t E w = (if m = .tostring then do
      pushString t (absentText w t)
      return 1
    else return 0 : M Nat) E w := by
  by_cases hm : m = .tostring
  · subst hm
    rw [if_pos rfl]
    refine (bind_of_ok (returns_height w t E) _).trans ?_
    unfold absentText
    by_cases hheight : (w.thread t).height ≥ 1
    · simp only [if_pos hheight]
      have hpointer : Returns (toPointer t 1) w _ w := Returns.bind (returns_checkIndex rfl)
        (Returns.bind (returns_value_at w t 1) (Returns.pure _ w))
      refine (bind_of_ok (returns_typeName_first hheight E) _).trans ?_
      refine (bind_of_ok (hpointer E) _).trans ?_
      exact bind_of_ok (Returns.pure _ w E) _
    · simp only [if_neg hheight]
      exact bind_of_ok (Returns.pure _ w E) _
  · rw [if_neg hm]
    unfold answerAbsent
    rw [if_pos (bne_iff_ne.mpr hm)]

/-- A handler passes the operation on for its first living operand, and answers
that there is none otherwise. -/
theorem looks_answerOperation (types : BoundTypes) (hlive : w.liveThread t = true)
    {m : MetaMethod} (hm : m ≠ .gc) :
    exists body, answerOperation types m t = guarded t body ∧
      Looks t 2 body (match w.firstLiving t with
        | some (u, b) => dispatch types m t u b
        | none => if m = .tostring then do
            pushString t (absentText w t)
            return 1
          else return 0) w := by
  refine ⟨do
    match ← findBound t (← operands t) with
    | some (u, b) => dispatch types m t u b
    | none => answerAbsent m t, ?_, ?_⟩
  · cases m with
    | gc => exact absurd rfl hm
    | _ => rfl
  · have hoperands : Returns (operands t) w ([1, 2].take (w.thread t).height) w :=
      Returns.bind (returns_height w t) (Returns.pure _ w)
    refine Looks.after hoperands ?_
    have hvalid : forall i, i ∈ ([1, 2] : List Int).take (w.thread t).height ->
        validIndex (w.thread t).height i = true := by
      intro i hi
      have hi := List.mem_of_mem_take hi
      simp only [List.mem_cons, List.not_mem_nil, or_false] at hi
      rcases hi with rfl | rfl <;> rfl
    refine ((looks_findBound hlive hvalid).bind _).congr fun th E halike => ?_
    refine (bind_of_ok (Returns.pure _ _ E) _).trans ?_
    unfold World.firstLiving
    cases ([1, 2].take (w.thread t).height).findSome? fun i => w.livingTo (w.valueAt t i) with
    | some ub => rfl
    | none =>
        dsimp only
        rw [answerAbsent_eq, absentText_alike hlive halike]

/-- What follows the hook when a value is finalized. -/
def dropBound (types : BoundTypes) (u : UserDataId) (type : HostType) : M Unit := do
  (types type).drop u (← hostValue u)
  modifyUserdata u fun d => { d with payload := match d.payload with
    | .block b => .block { b with alive := false }
    | p => p }
  log .debug ("finalized " ++ (types type).fullName ++ " userdata at " ++ userdataAddress u)

theorem finalizeBound_living {u : UserDataId} {b : Block}
    (hfind : Returns (blockOf u) w (some b) w) (halive : b.alive = true) (E : Engine) :
    finalizeBound types t u E w = (do
      let _ ← (types b.type).perform .gc u t
      dropBound types u b.type) E w := by
  unfold finalizeBound
  refine (bind_of_ok (hfind E) _).trans ?_
  dsimp only
  rw [halive]
  exact congrFun (congrFun (if_pos rfl) E) w

/-- The handler of finalization tells the living value in its first argument, and
drops it then. -/
theorem looks_answerGc (types : BoundTypes) (hlive : w.liveThread t = true) :
    exists body, answerOperation types .gc t = guarded t body ∧
      Looks t 2 body (match w.livingTo (w.valueAt t 1) with
        | some (u, b) => do
          let _ ← (types b.type).perform .gc u t
          dropBound types u b.type
          return 0
        | none => return 0) w := by
  refine ⟨_, rfl, ?_⟩
  refine ((looks_boundAt hlive rfl).bind _).trans hlive fun th _ => ?_
  refine Looks.after (Returns.pure _ _) ?_
  have hblock : forall u b, w.boundTo (w.valueAt t 1) = some (u, b) ->
      (w.setThread t th).block? u = some b := fun u b h => (World.of_boundTo h).2
  unfold World.livingTo
  cases hbound : w.boundTo (w.valueAt t 1) with
  | none => exact Looks.refl t 2 _ _
  | some ub =>
      rcases ub with ⟨u, b⟩
      rw [Option.filter_some]
      dsimp only
      have hfind : Returns (blockOf u) (w.setThread t th) (some b) (w.setThread t th) := by
        rw [← hblock u b hbound]
        exact returns_blockOf _ u
      cases halive : b.alive with
      | false =>
          have hidle : Returns (finalizeBound types t u) (w.setThread t th) () (w.setThread t th) := by
            refine Returns.bind hfind ?_
            dsimp only
            rw [halive]
            exact Returns.pure _ _
          exact Looks.after hidle (Looks.refl t 2 _ _)
      | true =>
          refine Looks.of_eq t 2 fun E => ?_
          refine (bind_congr_of_eq (finalizeBound_living hfind halive E) _).trans ?_
          exact congrFun (congrFun (bind_assoc _ _ _) E) _

/-!
# Handles
-/

/-- What is behind a handle with a number. -/
def behind (w : World) (id : RefId) : Value :=
  if id = noRef ∨ id = nilRef then .nil else w.registered id

theorem looks_pushRef (hlive : w.liveThread t = true) (id : RefId) :
    Looks t 1 (pushRef t id) (do
      push t (behind w id)
      return (behind w id).kind) w := by
  unfold pushRef behind
  by_cases hid : id = noRef ∨ id = nilRef
  · rw [if_pos hid, if_pos (by rcases hid with rfl | rfl <;> rfl)]
    exact (((looks_reserve hlive (by decide)).bind _).bind _).congr fun _ _ _ => rfl
  · have hvalid : validIndex (w.thread t).height registryIndex = true := by
      unfold validIndex registryIndex
      simp
    rw [if_neg hid, if_neg (by
      rw [Bool.or_eq_true, beq_iff_eq, beq_iff_eq]
      exact hid)]
    refine Looks.after (returns_checkIndex hvalid) ?_
    exact ((looks_reserve hlive (by decide)).bind _).congr fun _ _ _ => rfl

theorem looks_pop {α β : Type} {x : M α} {a : α} (h : Looks t 2 x (pure a) w) (f : α → β)
    (hlive : w.liveThread t = true) (hpos : (w.thread t).height ≠ 0) :
    (exists th, (w.thread t).Alike th ∧
      Returns (do let a ← x; Interface.pop t 1; return f a) w (f a)
        (w.setThread t (th.drop 1))) ∨
    (¬ (w.thread t).Ready 2 ∧ exists th p, forall E,
      (do let a ← x; Interface.pop t 1; return f a : M β) E w =
        .error (.panic p) (w.setThread t th)) := by
  rcases h with ⟨th, hlooked, hrun⟩ | ⟨hnot, th, p, _, hrun⟩
  · have hthread : (w.setThread t th).thread t = th := World.thread_setThread hlive th
    have hheight : th.height ≠ 0 := by
      unfold Thread.height at hpos ⊢
      rwa [hlooked.top_eq, hlooked.base_eq]
    have hpop := returns_pop_one (w := w.setThread t th) (t := t) (by rwa [hthread])
    rw [hthread, World.setThread_setThread] at hpop
    have hfind : Returns x w a (w.setThread t th) := hrun
    exact Or.inl ⟨th, hlooked.toAlike, Returns.bind hfind (Returns.bind hpop (Returns.pure _ _))⟩
  · exact Or.inr ⟨hnot, th, p, fun E => bind_of_error (hrun E) _⟩

/-- What is behind a handle is pushed, and takes the room of one value. -/
theorem pushRef_pushes (hlive : w.liveThread t = true) (id : RefId) :
    (exists th, (w.thread t).Topped (behind w id) th ∧
      (forall n, (w.thread t).Ready (n + 1) -> th.Ready n) ∧
      Returns (pushRef t id) w (behind w id).kind (w.setThread t th)) ∨
    (¬ (w.thread t).Ready 1 ∧ exists th p, forall E,
      pushRef t id E w = .error (.panic p) (w.setThread t th)) := by
  rcases looks_pushRef hlive id with ⟨th, hlooked, hrun⟩ | ⟨hnot, th, p, _, hrun⟩
  · refine Or.inl ⟨th.push (behind w id), hlooked.toAlike.topped _, fun n hn => ?_, fun E => ?_⟩
    · have hroom : (th.push (behind w id)).room = th.room := Thread.room_push th _
      rcases hlooked.ready (n + 1) hn with hfits | hgrows
      · exact Or.inl (by rw [hroom, Thread.top_push]; omega)
      · have htop := hgrows.top_le
        exact Or.inr ⟨by rw [hroom]; exact hgrows.room_le, by rw [Thread.top_push]; omega⟩
    · have hpush := returns_push (w.setThread t th) t (behind w id)
      rw [World.thread_setThread hlive, World.setThread_setThread] at hpush
      rw [hrun E]
      exact (Returns.bind hpush (Returns.pure _ _) : Returns (do
        push t (behind w id)
        return (behind w id).kind) _ _ _) E
  · exact Or.inr ⟨hnot, th, p, hrun⟩

/-- A value is recovered through a handle if it is the living one of the type
behind it; the stack is left as it was found. -/
theorem looks_downcast {r : OwnedRef} (hlive : w.liveThread r.thread = true)
    (hbase : (w.thread r.thread).base ≤ (w.thread r.thread).top) (type : HostType) :
    (exists th, th.top = (w.thread r.thread).top ∧
      (w.thread r.thread).SameBelow (w.thread r.thread).top th ∧
      Returns (UserDataRef.downcast r type) w ((w.recovered type (behind w r.id)).map (·.2))
        (w.setThread r.thread th)) ∨
    (¬ (w.thread r.thread).Ready 3 ∧ exists th p, forall E,
      UserDataRef.downcast r type E w = .error (.panic p) (w.setThread r.thread th)) := by
  rcases pushRef_pushes hlive r.id with ⟨th, htopped, hroom, hpush⟩ | ⟨hnot, th, p, hrun⟩
  · have hlive₁ : (w.setThread r.thread th).liveThread r.thread = true :=
      (World.liveThread_setThread _ _ _ _).trans hlive
    have hthread : (w.setThread r.thread th).thread r.thread = th := World.thread_setThread hlive th
    have htop := htopped.top_eq
    have hheight : 1 ≤ th.height := by
      unfold Thread.height
      rw [htop, htopped.below.base_eq]
      omega
    have hvalid : validIndex th.height (-1) = true := by
      have hpos : (1 : Int) ≤ (th.height : Int) := by omega
      simpa [validIndex] using Or.inr hpos
    have hvalue : (w.setThread r.thread th).valueAt r.thread (-1) = behind w r.id := by
      rw [valueAt_top, hthread, htop, Nat.add_sub_cancel]
      exact htopped.slot_top
    -- the value behind the reference stands on top of the stack while it is looked at, and is
    -- popped then
    have hlook := looks_toUserData hlive₁ type (show validIndex
      ((w.setThread r.thread th).thread r.thread).height (-1) = true by rwa [hthread])
    rw [hvalue] at hlook
    rcases looks_pop hlook (·.map (·.2)) hlive₁ (by rw [hthread]; omega) with
      ⟨th₂, halike, hrun⟩ | ⟨hnot, th₂, p, hrun⟩
    · rw [World.setThread_setThread] at hrun
      rw [hthread] at halike
      refine Or.inl ⟨th₂.drop 1, ?_, ⟨?_, fun i hi => ?_⟩, Returns.bind hpush hrun⟩
      · show th₂.top - 1 = _
        rw [halike.top_eq, htop]
        rfl
      · exact halike.base_eq.trans htopped.below.base_eq
      · exact (halike.slot_eq i).trans (htopped.below.slot_eq i hi)
    · rw [World.setThread_setThread] at hrun
      rw [hthread] at hnot
      exact Or.inr ⟨fun h3 => hnot (hroom 2 h3), th₂, p,
        fun E => (bind_of_ok (hpush E) _).trans (hrun E)⟩
  · refine Or.inr ⟨fun h3 => hnot ?_, th, p, fun E => bind_of_error (hrun E) _⟩
    rcases h3 with hfits | hgrows
    · exact Or.inl (by omega)
    · exact Or.inr (hgrows.mono (by decide))

end Interface

end LuaHost
