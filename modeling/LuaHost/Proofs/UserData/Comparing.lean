import LuaHost.Proofs.Machine.Testing
import LuaHost.Proofs.UserData.Answering
import LuaHost.Stock.Types

/-!
# Comparisons of bound values

Scripts have six ways to compare two values, and the machine has three: the
others exchange the operands or negate the answer.  Whichever of the two
operands brings the handler, and whichever of them the handler finds alive
first, a comparison of two values of a type is answered by the type's own
relation, with the operands in the order in which the script has them, and a
value of the type is unequal to anything else and in no order to it.
-/

namespace LuaHost

open Machine Interface RecordType

/-!
# Questions
-/

namespace Comparison

def event : Comparison → Event
  | eq => .eq
  | lt => .lt
  | le => .le

def method : Comparison → MetaMethod
  | eq => .eq
  | lt => .lt
  | le => .le

theorem method_ne (c : Comparison) : c.method ≠ .gc ∧ c.method ≠ .tostring := by
  cases c <;> decide

theorem field_event (c : Comparison) : c.event.field = c.method.field.toUTF8 := by
  cases c <;> decide +kernel

end Comparison

/-- The question that a comparison answers by itself. -/
def Comparison.query : Comparison → Query
  | eq => .eq
  | lt => .lt
  | le => .le

/-!
# Types with relations
-/

/-- A relation between the values of a type, as the fields that they have. -/
abbrev Relation := List Field → List Field → Bool

/-- The relations that a type has, one for each question. -/
abbrev Relations := Query → Relation

/-- The relations are what their names say. -/
structure Relations.Lawful (r : Relations) : Prop where
  ne_eq : forall a b, r .ne a b = !r .eq a b
  gt_eq : forall a b, r .gt a b = r .lt b a
  ge_eq : forall a b, r .ge a b = r .le b a

/-- Lawful relations are known from the three that the machine asks for. -/
theorem Relations.Lawful.query_eq {r : Relations} (h : r.Lawful) (q : Query) (a b : List Field) :
    r q a b = ((if q.exchanged then r q.comparison.query b a else r q.comparison.query a b) ==
      q.positive) := by
  cases q with
  | ne =>
      rw [h.ne_eq]
      show _ = (r .eq a b == false)
      cases r .eq a b <;> rfl
  | gt =>
      rw [h.gt_eq]
      exact (beq_true _).symm
  | ge =>
      rw [h.ge_eq]
      exact (beq_true _).symm
  | _ => exact (beq_true _).symm

namespace BoundTypes

/-- A type answers an operation by a relation between its values, or not at all. -/
def Relates (types : BoundTypes) (T : HostType) (m : MetaMethod) (r : Option Relation) : Prop :=
  forall u t, (types T).perform m u t = match r with
    | some r => answerRelation T r t
    | none => return 0

/-- A type answers all comparisons by its relations. -/
def Compares (types : BoundTypes) (T : HostType) (r : Relations) : Prop :=
  forall c : Comparison, types.Relates T c.method (some (r c.query))

/-- A type answers each comparison by some relation of its own, or not at all. -/
def Separate (types : BoundTypes) (T : HostType) : Prop :=
  forall c : Comparison, exists r, types.Relates T c.method r

/-- A type that leaves all operations out answers no comparison. -/
theorem separate_plain {types : BoundTypes} {T : HostType}
    (h : (types T).perform = fun _ _ _ => return 0) : types.Separate T :=
  fun _ => ⟨none, fun _ _ => by rw [h]⟩

end BoundTypes

namespace RecordType

/-- The relations of record types: equal fields, and the order of the first fields that are not. -/
def relations : Relations
  | .eq => Field.allEqual
  | .ne => fun a b => !Field.allEqual a b
  | .lt => isLess
  | .gt => fun a b => isLess b a
  | .le => isLessOrEqual
  | .ge => fun a b => isLessOrEqual b a

theorem lawful_relations : Relations.Lawful relations :=
  ⟨fun _ _ => rfl, fun _ _ => rfl, fun _ _ => rfl⟩

/-- A record type with an equality and an order compares its values by them. -/
theorem compares_toBound {types : BoundTypes} {T : HostType} {r : RecordType}
    (hT : types T = r.toBound T) (heq : r.hasEquality = true) (horder : r.hasOrder = true) :
    types.Compares T relations := by
  intro c u t
  rw [hT]
  cases c with
  | eq => exact if_pos heq
  | lt => exact if_pos horder
  | le => exact if_pos horder

theorem separate_toBound {types : BoundTypes} {T : HostType} {r : RecordType}
    (hT : types T = r.toBound T) : types.Separate T := by
  intro c
  have hrelates (has : Bool) (s : Relation) (h : forall u t, (types T).perform c.method u t =
      if has then answerRelation T s t else return 0) : exists s, types.Relates T c.method s := by
    cases has with
    | false => exact ⟨none, h⟩
    | true => exact ⟨some s, h⟩
  rw [hT] at hrelates
  cases c with
  | eq => exact hrelates r.hasEquality Field.allEqual fun _ _ => rfl
  | lt => exact hrelates r.hasOrder isLess fun _ _ => rfl
  | le => exact hrelates r.hasOrder isLessOrEqual fun _ _ => rfl

end RecordType

/-!
# Pairs of values
-/

namespace World

/-- What a relation of a type says of two values: nothing unless both are of the type. -/
def related (w : World) (T : HostType) (r : Option Relation) (x y : Value) : Bool :=
  match r, w.recovered T x, w.recovered T y with
  | some r, some (_, a), some (_, b) => r (fieldsOf a) (fieldsOf b)
  | _, _, _ => false

/-- A value that is not of a type, and has no say in comparisons with the values that are. -/
inductive Silent (w : World) (types : BoundTypes) (T : HostType) : Value → Prop where
  | bare {v : Value} : (forall c : Comparison, w.handler v c.event = .nil) → Silent w types T v
  | finalized {u : UserDataId} {b : Block} : w.isShared u = true → w.block? u = some b →
      b.alive = false → Silent w types T (.userdata u)
  | foreign {v : Value} {u : UserDataId} {b : Block} : w.livingTo v = some (u, b) → b.type ≠ T →
      types.Separate b.type → Silent w types T v

/-- Two values, at least one of which is of a type. -/
inductive Meets (w : World) (types : BoundTypes) (T : HostType) : Value → Value → Prop where
  | both {x y : Value} {u v : UserDataId} {a b : HostValue} : w.recovered T x = some (u, a) →
      w.recovered T y = some (v, b) → u ≠ v → Meets w types T x y
  | left {x y : Value} {u : UserDataId} {a : HostValue} : w.recovered T x = some (u, a) →
      w.Silent types T y → Meets w types T x y
  | right {x y : Value} {u : UserDataId} {a : HostValue} : w.Silent types T x →
      w.recovered T y = some (u, a) → Meets w types T x y

variable {w : World} {types : BoundTypes} {T : HostType} {x y v : Value}

theorem Meets.symm (h : w.Meets types T x y) : w.Meets types T y x := by
  cases h with
  | both hx hy hne => exact .both hy hx hne.symm
  | left hx hy => exact .right hy hx
  | right hx hy => exact .left hy hx

theorem related_none_left (h : w.recovered T x = none) (r : Option Relation) (y : Value) :
    w.related T r x y = false := by
  unfold related
  rw [h]
  cases r <;> rfl

theorem related_none_right (h : w.recovered T y = none) (r : Option Relation) (x : Value) :
    w.related T r x y = false := by
  unfold related
  rw [h]
  cases r <;> cases w.recovered T x <;> rfl

theorem shared_of_recovered {u : UserDataId} {a : HostValue} (h : w.recovered T v = some (u, a)) :
    v = .userdata u ∧ w.isShared u = true := by
  rcases recovered_eq_some.mp h with ⟨b, hliving, _, _⟩
  rcases livingTo_eq_some.mp hliving with ⟨hv, hshared, _, _⟩
  exact ⟨hv, hshared⟩

theorem recovered_of_type_ne {u : UserDataId} {b : Block} (h : w.livingTo v = some (u, b))
    (hne : b.type ≠ T) : w.recovered T v = none := by
  refine Option.eq_none_iff_forall_ne_some.mpr fun ⟨u', a⟩ hrecovered => ?_
  rcases recovered_eq_some.mp hrecovered with ⟨b', hliving, htype, _⟩
  rw [h] at hliving
  cases hliving
  exact hne htype

theorem recovered_of_dead (h : w.livingTo v = none) : w.recovered T v = none := by
  unfold recovered
  rw [h]
  rfl

namespace Silent

/-- The handlers find such a value dead, or of another type. -/
theorem living (hfurnished : w.Furnished) (h : w.Silent types T v) :
    w.livingTo v = none ∨
      exists u b, w.livingTo v = some (u, b) ∧ b.type ≠ T ∧ types.Separate b.type := by
  cases h with
  | bare hbare =>
      refine Or.inl (Option.eq_none_iff_forall_ne_some.mpr fun ⟨u, b⟩ hliving => ?_)
      rcases livingTo_eq_some.mp hliving with ⟨rfl, hshared, _, _⟩
      have hnil := hbare .eq
      rw [hfurnished.handler_eq hshared (Comparison.field_event .eq)] at hnil
      cases hnil
  | finalized hshared hblock hdead =>
      refine Or.inl (Option.eq_none_iff_forall_ne_some.mpr fun ⟨u, b⟩ hliving => ?_)
      rcases livingTo_eq_some.mp hliving with ⟨heq, _, hblock', halive⟩
      cases heq
      cases hblock.symm.trans hblock'
      rw [hdead] at halive
      cases halive
  | foreign hliving hne hseparate => exact Or.inr ⟨_, _, hliving, hne, hseparate⟩

theorem recovered_eq (hfurnished : w.Furnished) (h : w.Silent types T v) : w.recovered T v = none := by
  rcases h.living hfurnished with hdead | ⟨u, b, hliving, hne, _⟩
  · exact recovered_of_dead hdead
  · exact recovered_of_type_ne hliving hne

/-- Such a value has no handler for comparisons, or the shared one. -/
theorem handler_eq (hfurnished : w.Furnished) (h : w.Silent types T v) (c : Comparison) :
    w.handler v c.event = .nil ∨ w.handler v c.event = .native (.metamethod c.method) := by
  cases h with
  | bare hbare => exact Or.inl (hbare c)
  | finalized hshared _ _ => exact Or.inr (hfurnished.handler_eq hshared c.field_event)
  | foreign hliving _ _ =>
      rcases livingTo_eq_some.mp hliving with ⟨rfl, hshared, _, _⟩
      exact Or.inr (hfurnished.handler_eq hshared c.field_event)

end Silent

namespace Meets

theorem userdata (h : w.Meets types T x y) :
    exists u, w.isShared u = true ∧ (x = .userdata u ∨ y = .userdata u) := by
  cases h with
  | both hx _ _ =>
      rcases shared_of_recovered hx with ⟨rfl, hshared⟩
      exact ⟨_, hshared, Or.inl rfl⟩
  | left hx _ =>
      rcases shared_of_recovered hx with ⟨rfl, hshared⟩
      exact ⟨_, hshared, Or.inl rfl⟩
  | right _ hy =>
      rcases shared_of_recovered hy with ⟨rfl, hshared⟩
      exact ⟨_, hshared, Or.inr rfl⟩

theorem ne (hfurnished : w.Furnished) (h : w.Meets types T x y) : x ≠ y := by
  rintro rfl
  cases h with
  | both hx hy hne =>
      rw [hx] at hy
      cases hy
      exact hne rfl
  | left hx hy =>
      rw [hy.recovered_eq hfurnished] at hx
      cases hx
  | right hx hy =>
      rw [hx.recovered_eq hfurnished] at hy
      cases hy

theorem first (hfurnished : w.Furnished) {r : Relations} (hr : types.Compares T r)
    (h : w.Meets types T x y) (c : Comparison) :
    exists u b s, (w.livingTo x).or (w.livingTo y) = some (u, b) ∧ types.Relates b.type c.method s ∧
      w.related b.type s x y = w.related T (some (r c.query)) x y := by
  have hown {v : Value} {u : UserDataId} {a : HostValue} (hv : w.recovered T v = some (u, a)) :
      exists b, w.livingTo v = some (u, b) ∧ b.type = T := by
    rcases recovered_eq_some.mp hv with ⟨b, hliving, htype, _⟩
    exact ⟨b, hliving, htype⟩
  have hfirst {u : UserDataId} {a : HostValue} (hx : w.recovered T x = some (u, a)) :
      exists u b s, (w.livingTo x).or (w.livingTo y) = some (u, b) ∧ types.Relates b.type c.method s ∧
        w.related b.type s x y = w.related T (some (r c.query)) x y := by
    rcases hown hx with ⟨b, hliving, rfl⟩
    exact ⟨u, b, _, by rw [hliving]; rfl, hr c, rfl⟩
  cases h with
  | both hx _ _ => exact hfirst hx
  | left hx _ => exact hfirst hx
  | right hx hy =>
      have hnone := related_none_left (hx.recovered_eq hfurnished) (some (r c.query)) y
      rcases hx.living hfurnished with hdead | ⟨u, b, hliving, hne, hseparate⟩
      · rcases hown hy with ⟨b, hliving, rfl⟩
        exact ⟨_, b, _, by rw [hdead, Option.none_or]; exact hliving, hr c, rfl⟩
      · -- the one of the other type is asked, and knows the second operand as little as the first
        rcases hown hy with ⟨b', hliving', rfl⟩
        rcases hseparate c with ⟨s, hs⟩
        refine ⟨u, b, s, by rw [hliving]; rfl, hs, ?_⟩
        rw [hnone]
        exact related_none_right (recovered_of_type_ne hliving' hne.symm) s x

end Meets

end World

namespace Machine

theorem returns_binaryHandler {w : World} {types : BoundTypes} {T : HostType} {x y : Value}
    (hfurnished : w.Furnished) (h : w.Meets types T x y) (c : Comparison) :
    Returns (binaryHandler x y c.event) w (.native (.metamethod c.method)) w := by
  have hown {v : Value} {u : UserDataId} {a : HostValue} (hv : w.recovered T v = some (u, a)) :
      w.handler v c.event = .native (.metamethod c.method) := by
    rcases World.shared_of_recovered hv with ⟨rfl, hshared⟩
    exact hfurnished.handler_eq hshared c.field_event
  have hfirst : w.handler x c.event = .native (.metamethod c.method) ∨
      w.handler x c.event = .nil ∧ w.handler y c.event = .native (.metamethod c.method) := by
    cases h with
    | both hx _ _ => exact Or.inl (hown hx)
    | left hx _ => exact Or.inl (hown hx)
    | right hx hy =>
        rcases hx.handler_eq hfurnished c with hnil | hnative
        · exact Or.inr ⟨hnil, hown hy⟩
        · exact Or.inl hnative
  refine Returns.bind (returns_metaEvent w x c.event) ?_
  rcases hfirst with hx | ⟨hx, hy⟩
  · rw [hx]
    exact Returns.pure _ w
  · rw [hx, ← hy]
    exact returns_metaEvent w y c.event

end Machine

/-!
# Answers
-/

namespace Interface

variable {e : Embedding} {t : ThreadId} {w : World} {T : HostType} {x y : Value} {E E₀ : Engine}

theorem returns_answerRelation (h : Asked t x y w) (T : HostType) (r : Relation) :
    exists th, Returns (answerRelation T r t) w 1 (w.setThread t th) ∧
      Answers t w [.bool (w.related T (some r) x y)] (w.setThread t th) := by
  have hone : validIndex (w.thread t).height 1 = true := rfl
  rcases (looks_toUserData h.live T hone).finds (works_toUserData T 1) h.live h.ready with
    ⟨th, hlooked, hworked, hfirst⟩
  have h₁ := h.looked hlooked
  have htwo : validIndex ((w.setThread t th).thread t).height 2 = true := rfl
  rcases (looks_toUserData h₁.live T htwo).finds (works_toUserData T 2) h₁.live h₁.ready with
    ⟨th', hlooked', hworked', hsecond⟩
  have h₂ := h₁.looked hlooked'
  rcases answers_pushNew h₂.live h₂.readyOne (.bool (w.related T (some r) x y)) with
    ⟨th'', hpush, hanswers⟩
  have hanswers := (hanswers.since h₁.live hlooked'.toAlike hworked').since h.live hlooked.toAlike
    hworked
  rw [h.first] at hfirst
  rw [h₁.second] at hsecond
  rw [World.setThread_setThread, World.setThread_setThread] at hpush hanswers
  rw [World.setThread_setThread] at hsecond
  have hpush : forall b, b = w.related T (some r) x y ->
      Returns (pushBoolean t b) (w.setThread t th') () (w.setThread t th'') := by
    rintro b rfl
    exact hpush
  refine ⟨th'', Returns.bind hfirst (Returns.bind hsecond ?_), hanswers⟩
  refine Returns.bind (hpush _ ?_) (Returns.pure 1 _)
  rw [show (w.setThread t th).recovered T y = w.recovered T y from rfl]
  unfold World.related
  cases w.recovered T x <;> cases w.recovered T y <;> rfl

/-- A type that leaves a comparison out answers with no value, which counts as false. -/
theorem returns_related (h : Asked t x y w) {types : BoundTypes} {m : MetaMethod}
    {s : Option Relation} (hs : types.Relates T m s) (u : UserDataId) :
    exists rs th, Returns ((types T).perform m u t) w rs.length (w.setThread t th) ∧
      Answers t w rs (w.setThread t th) ∧ (rs.headD .nil).isTrue = w.related T s x y := by
  rw [hs u t]
  cases s with
  | none =>
      refine ⟨[], w.thread t, ?_, ?_, rfl⟩
      · rw [World.setThread_thread]
        exact Returns.pure 0 w
      · rw [World.setThread_thread]
        exact answers_nothing h.live
  | some r =>
      rcases returns_answerRelation h T r with ⟨th, hrun, hanswers⟩
      refine ⟨[.bool (w.related T (some r) x y)], th, hrun, hanswers, ?_⟩
      show (Value.bool _).isTrue = _
      cases w.related T (some r) x y <;> rfl

/-- Two values are compared by the type of the first of them that is alive. -/
theorem ends_related (hE : E.Calls e.host E₀) {u : UserDataId} {b : Block} {c : Comparison} {s : Option Relation}
    (hlive : w.liveThread t = true) (hquiet : (w.thread t).hook.active = false)
    (hliving : (w.livingTo x).or (w.livingTo y) = some (u, b))
    (hs : e.types.Relates b.type c.method s) :
    Ends (do return (← callHandler t (.native (.metamethod c.method)) [x, y]).isTrue : M Bool)
      E w (Compared t w (w.related b.type s x y))
      fun _ => ¬ (w.thread t).Affords 3 := by
  let Answered (v : Value) (w' : World) : Prop :=
    v.isTrue = w.related b.type s x y ∧ exists th, w' = w.setThread t th
  have hperform : forall th, Asked t x y (w.setThread t th) -> th.top = (w.thread t).top + 3 ->
      Ends ((e.types b.type).perform c.method u t) E₀ (w.setThread t th)
        (fun n w' => exists rs, rs.length = n ∧ Answers t (w.setThread t th) rs w' ∧
          Answered (rs.headD .nil) w')
        fun _ => ¬ True := by
    intro th hasked _
    rcases returns_related hasked hs u with ⟨rs, th', hrun, hanswers, htrue⟩
    exact hrun.ends ⟨rs, rfl, hanswers, htrue, th', World.setThread_setThread w t th th'⟩
  have hcall := ends_operation hE c.method_ne.1 c.method_ne.2 hlive hquiet hliving hperform
  refine Ends.bind (hcall.imp (fun _ _ h => h) fun _ h hafford => h ⟨trivial, hafford⟩) ?_
  rintro v w' ⟨w₁, th, ⟨htrue, th', rfl⟩, rfl, hunmoved⟩
  exact (Returns.pure v.isTrue _).ends ⟨htrue, th, World.setThread_setThread w t th' th, hunmoved⟩

/-- Two values are compared by the relation of the type that one of them is of. -/
theorem ends_comparison (hE : E.Calls e.host E₀) {r : Relations} (hr : e.types.Compares T r) (hfurnished : w.Furnished)
    (hlive : w.liveThread t = true) (hquiet : (w.thread t).hook.active = false)
    (h : w.Meets e.types T x y) (c : Comparison) :
    Ends (do return (← callHandler t (.native (.metamethod c.method)) [x, y]).isTrue : M Bool)
      E w (Compared t w (w.related T (some (r c.query)) x y))
      fun _ => ¬ (w.thread t).Affords 3 :=
  let ⟨_, _, _, hliving, hs, hsame⟩ := h.first hfurnished hr c
  hsame ▸ ends_related hE hlive hquiet hliving hs

theorem rawEq_userdata {u : UserDataId} {v : Value} :
    (Value.userdata u).rawEq v = true ↔ v = .userdata u := by
  cases v <;> simp [Value.rawEq, eq_comm]

theorem rawEq_meets {types : BoundTypes} (hfurnished : w.Furnished) (h : w.Meets types T x y) :
    x.rawEq y = false := by
  have hne := h.ne hfurnished
  rcases h.userdata with ⟨u, _, rfl | rfl⟩
  · exact Bool.eq_false_iff.mpr fun heq => hne (rawEq_userdata.mp heq).symm
  · refine Bool.eq_false_iff.mpr fun heq => hne ?_
    cases x <;> simp [Value.rawEq] at heq ⊢
    exact heq

/-- Neither numbers nor strings decide about an order with a userdata. -/
theorem rawLess_meets {types : BoundTypes} (h : w.Meets types T x y) (strict : Bool) :
    rawLess strict x y = none := by
  rcases h.userdata with ⟨u, _, rfl | rfl⟩
  · rfl
  · cases x <;> rfl

/-- The machine's equality says what the type's own relation says. -/
theorem ends_equals (hE : E.Calls e.host E₀) {r : Relations} (hr : e.types.Compares T r)
    (hfurnished : w.Furnished) (hlive : w.liveThread t = true)
    (hquiet : (w.thread t).hook.active = false) (h : w.Meets e.types T x y) :
    Ends (equals t x y) E w (Compared t w (w.related T (some (r .eq)) x y))
      fun _ => ¬ (w.thread t).Affords 3 := by
  unfold equals
  rw [if_neg (by rw [rawEq_meets hfurnished h]; exact Bool.false_ne_true)]
  by_cases hboth : exists u v, x = .userdata u ∧ y = .userdata v
  · rcases hboth with ⟨u, v, rfl, rfl⟩
    have hhandler := returns_binaryHandler hfurnished h .eq
    refine Ends.after hhandler ?_
    exact ends_comparison hE hr hfurnished hlive hquiet h .eq
  · have hnil : equalityHandler x y = return .nil := by
      rcases h.userdata with ⟨u, _, rfl | rfl⟩
      · cases y <;> first | rfl | exact absurd ⟨_, _, rfl, rfl⟩ hboth
      · cases x <;> first | rfl | exact absurd ⟨_, _, rfl, rfl⟩ hboth
    have hunrelated : w.related T (some (r .eq)) x y = false := by
      cases hx : w.recovered T x with
      | none => exact World.related_none_left hx _ y
      | some ua =>
          refine World.related_none_right (Option.eq_none_iff_forall_ne_some.mpr fun vb hy => ?_) _ x
          exact hboth ⟨_, _, (World.shared_of_recovered hx).1, (World.shared_of_recovered hy).1⟩
    rw [hnil, hunrelated]
    refine Ends.after (Returns.pure Value.nil w) ?_
    refine (Returns.pure false w).ends ⟨rfl, w.thread t, (World.setThread_thread w t).symm, ?_⟩
    exact ⟨rfl, rfl, rfl, fun _ _ => rfl⟩

/-- The comparison by order that is strict or not. -/
def ordering (strict : Bool) : Comparison := if strict then .lt else .le

/-- The machine's order says what the type's own relation says. -/
theorem ends_lessByHandler (hE : E.Calls e.host E₀) {r : Relations} (hr : e.types.Compares T r)
    (hfurnished : w.Furnished) (hlive : w.liveThread t = true)
    (hquiet : (w.thread t).hook.active = false) (h : w.Meets e.types T x y) (strict : Bool) :
    Ends (lessByHandler t (if strict then .lt else .le) x y) E w
      (Compared t w (w.related T (some (r (ordering strict).query)) x y))
      fun _ => ¬ (w.thread t).Affords 3 := by
  have hevent : (if strict then Event.lt else .le) = (ordering strict).event := by
    cases strict <;> rfl
  rw [hevent]
  refine Ends.after (returns_binaryHandler hfurnished h (ordering strict)) ?_
  exact ends_comparison hE hr hfurnished hlive hquiet h (ordering strict)

end Interface

namespace World

variable {w : World} {types : BoundTypes} {T : HostType} {x y v : Value}

theorem Silent.setThread (h : w.Silent types T v) (t : ThreadId) (th : Thread) :
    (w.setThread t th).Silent types T v := by
  cases h with
  | bare hbare => exact .bare hbare
  | finalized hshared hblock hdead => exact .finalized hshared hblock hdead
  | foreign hliving hne hseparate => exact .foreign hliving hne hseparate

theorem Meets.setThread (h : w.Meets types T x y) (t : ThreadId) (th : Thread) :
    (w.setThread t th).Meets types T x y := by
  cases h with
  | both hx hy hne => exact .both hx hy hne
  | left hx hy => exact .left hx (hy.setThread t th)
  | right hx hy => exact .right (hx.setThread t th) hy

end World

/-!
# Instructions
-/

namespace Machine.Site

variable {s : Site} {t : ThreadId} {w : World} {T : HostType} {x y : Value} {e : Embedding}
  {E E₀ : Engine} {r : Relations}

theorem ends_compareOrder (hE : E.Calls e.host E₀) (hr : e.types.Compares T r)
    (hfurnished : w.Furnished) (hlive : w.liveThread t = true)
    (hquiet : (w.thread t).hook.active = false) (h : w.Meets e.types T x y) (strict : Bool) :
    Ends (s.compareOrder t strict x y) E w
      (fun _ w' => s.Goes t w (w.related T (some (r (ordering strict).query)) x y == s.i.k) w')
      fun _ => ¬ ((w.thread t).withTop s.limit).Affords 3 := by
  unfold compareOrder
  rw [rawLess_meets h strict]
  refine ends_test hlive ?_
  have hthread := World.thread_setThread hlive ((w.thread t).withTop s.limit)
  have hends := ends_lessByHandler (t := t) (w := w.setThread t ((w.thread t).withTop s.limit))
    hE hr hfurnished ((World.liveThread_setThread w t t _).trans hlive)
    (by rw [hthread]; exact hquiet) (h.setThread t _) strict
  rw [hthread] at hends
  exact hends

theorem ends_compareEqual (hE : E.Calls e.host E₀) (hr : e.types.Compares T r)
    (hfurnished : w.Furnished) (hlive : w.liveThread t = true)
    (hquiet : (w.thread t).hook.active = false) (h : w.Meets e.types T x y) :
    Ends (if x.rawEq y then s.branch t true
      else do
        s.raiseTop t
        s.branch t (← equals t x y)) E w
      (fun _ w' => s.Goes t w (w.related T (some (r .eq)) x y == s.i.k) w')
      fun _ => ¬ ((w.thread t).withTop s.limit).Affords 3 := by
  rw [if_neg (by rw [rawEq_meets hfurnished h]; exact Bool.false_ne_true)]
  refine ends_test hlive ?_
  have hthread := World.thread_setThread hlive ((w.thread t).withTop s.limit)
  have hends := ends_equals (t := t) (w := w.setThread t ((w.thread t).withTop s.limit))
    hE hr hfurnished ((World.liveThread_setThread w t t _).trans hlive)
    (by rw [hthread]; exact hquiet) (h.setThread t _)
  rw [hthread] at hends
  exact hends

/-- A comparison with a value that is no userdata needs no handler. -/
theorem ends_compareConstant (hfurnished : w.Furnished) {types : BoundTypes}
    (h : w.Meets types T x y) (hy : forall u, y ≠ .userdata u) (f : Relation) :
    Ends (s.branch t (x.rawEq y)) E w
      (fun _ w' => s.Goes t w (w.related T (some f) x y == s.i.k) w')
      fun _ => ¬ ((w.thread t).withTop s.limit).Affords 3 := by
  have hnone : w.recovered T y = none :=
    Option.eq_none_iff_forall_ne_some.mpr fun _ hv => hy _ (World.shared_of_recovered hv).1
  rw [rawEq_meets hfurnished h, World.related_none_right hnone]
  exact (returns_branch s w t false).ends ⟨_, rfl, rfl, rfl, fun _ _ => rfl⟩

/-- Every instruction that compares such values goes on as the relation of the type says. -/
theorem ends_perform (hE : E.Calls e.host E₀) (hr : e.types.Compares T r)
    (hfurnished : w.Furnished) (hlive : w.liveThread t = true)
    (hquiet : (w.thread t).hook.active = false) {c : Comparison}
    (hquestion : s.question (w.thread t) = some (c, x, y)) (h : w.Meets e.types T x y) :
    Ends (s.perform e.host t) E w
      (fun go w' => go = true ∧ s.Goes t w (w.related T (some (r c.query)) x y == s.i.k) w')
      fun _ => ¬ ((w.thread t).withTop s.limit).Affords 3 := by
  have hreg (n : Nat) : Returns (s.reg t n) w ((w.thread t).slot (s.base + n)) w :=
    returns_slot w t _
  have hgo {m : M Unit} {Q : World → Prop} {R : World → Prop} (hm : Ends m E w (fun _ => Q) R) :
      Ends (do m; return true : M Bool) E w (fun go w' => go = true ∧ Q w') R := by
    refine Ends.bind hm ?_
    intro _ w' hQ
    exact (Returns.pure true w').ends ⟨rfl, hQ⟩
  have horder {m : M Unit} (strict : Bool) {x y : Value}
      (hm : m E w = s.compareOrder t strict x y E w) (h : w.Meets e.types T x y) :
      Ends (do m; return true : M Bool) E w
        (fun go w' => go = true ∧
          s.Goes t w (w.related T (some (r (ordering strict).query)) x y == s.i.k) w')
        fun _ => ¬ ((w.thread t).withTop s.limit).Affords 3 := by
    refine hgo ?_
    have hends := ends_compareOrder (s := s) hE hr hfurnished hlive hquiet h strict
    unfold Ends at hends ⊢
    rwa [hm]
  -- an instruction that asks reads its operands first, in a case each; the answer is that of the
  -- comparison
  unfold question at hquestion
  unfold perform
  split at hquestion
  case h_1 hop =>
    simp only [hop]
    cases hquestion
    refine hgo (Ends.after (hreg _) (Ends.after (hreg _) ?_))
    exact ends_compareEqual hE hr hfurnished hlive hquiet h
  case h_2 hop =>
    simp only [hop]
    dsimp only at hquestion
    split at hquestion
    · cases hquestion
    · next hconstant =>
        cases hquestion
        exact hgo (Ends.after (hreg _) (ends_compareConstant hfurnished h hconstant _))
  case h_3 hop =>
    simp only [hop]
    cases hquestion
    exact hgo (Ends.after (hreg _) (ends_compareConstant hfurnished h nofun _))
  case h_4 hop =>
    simp only [hop]
    cases hquestion
    exact horder true ((hreg _).andThen ((hreg _).andThen rfl)) h
  case h_5 hop =>
    simp only [hop]
    cases hquestion
    exact horder false ((hreg _).andThen ((hreg _).andThen rfl)) h
  case h_6 hop =>
    simp only [hop]
    cases hquestion
    exact horder true ((hreg _).andThen rfl) h
  case h_7 hop =>
    simp only [hop]
    cases hquestion
    exact horder false ((hreg _).andThen rfl) h
  case h_8 hop =>
    simp only [hop]
    cases hquestion
    exact horder true ((hreg _).andThen rfl) h
  case h_9 hop =>
    simp only [hop]
    cases hquestion
    exact horder false ((hreg _).andThen rfl) h
  case h_10 => cases hquestion

/-- A question about two values of which one is of a type is answered by the comparison for it. -/
theorem decides_meets (hE : E.Calls e.host E₀) (hr : e.types.Compares T r)
    (hfurnished : w.Furnished) (hlive : w.liveThread t = true)
    (hquiet : (w.thread t).hook.active = false) {q : Query} {want : Bool}
    (htests : s.Tests (w.thread t) q want x y) (h : w.Meets e.types T x y) :
    s.Decides e.host E t w ((if q.exchanged then w.related T (some (r q.comparison.query)) y x
      else w.related T (some (r q.comparison.query)) x y) == q.positive) want := by
  have hjump (b : Bool) : (b == s.i.k) = ((b == q.positive) == (q.positive == s.i.k)) := by
    cases b <;> cases q.positive <;> cases s.i.k <;> rfl
  unfold Decides
  cases htests with
  | straight hquestion =>
      rw [← hjump]
      split at hquestion
      · next hexchanged =>
          rw [if_pos hexchanged]
          exact ends_perform hE hr hfurnished hlive hquiet hquestion h.symm
      · next hexchanged =>
          rw [if_neg hexchanged]
          exact ends_perform hE hr hfurnished hlive hquiet hquestion h
  | turned hop hequal hquestion =>
      have hnone : w.recovered T x = none := Option.eq_none_iff_forall_ne_some.mpr fun _ hx =>
        question_constant hop hquestion _ (World.shared_of_recovered hx).1
      have hunrelated : (if q.exchanged then w.related T (some (r q.comparison.query)) y x
          else w.related T (some (r q.comparison.query)) x y) =
            w.related T (some (r Comparison.eq.query)) y x := by
        rw [World.related_none_right hnone, World.related_none_right hnone,
          World.related_none_left hnone, ite_self]
      rw [hunrelated, ← hjump]
      exact ends_perform hE hr hfurnished hlive hquiet hquestion h.symm

/-- Whatever a script asks about two values, of which one is a living userdata of a type with
relations of its own: if both are, and are not the same, the answer is what the type's relation of
that name says of them in the order of the script; if the other one is a number, a string, a table
or anything else without handlers for comparisons, a finalized userdata, or one of another type, the
two are unequal and in no order. -/
theorem comparisons_agree (hE : E.Calls e.host E₀) (hr : e.types.Compares T r) (hlawful : r.Lawful)
    (hfurnished : w.Furnished) (hlive : w.liveThread t = true)
    (hquiet : (w.thread t).hook.active = false) {q : Query} {want : Bool}
    (htests : s.Tests (w.thread t) q want x y) :
    (forall u v a b, w.recovered T x = some (u, a) -> w.recovered T y = some (v, b) -> u ≠ v ->
      s.Decides e.host E t w (r q (fieldsOf a) (fieldsOf b)) want) ∧
    (forall u a, w.recovered T x = some (u, a) -> w.Silent e.types T y ->
      s.Decides e.host E t w (q == .ne) want) ∧
    (forall u a, w.Silent e.types T x -> w.recovered T y = some (u, a) ->
      s.Decides e.host E t w (q == .ne) want) := by
  have hmeets := decides_meets hE hr hfurnished hlive hquiet htests
  have hneither (hxy : forall f, w.related T f x y = false ∧ w.related T f y x = false)
      (h : w.Meets e.types T x y) : s.Decides e.host E t w (q == .ne) want := by
    have hdecides := hmeets h
    rw [(hxy _).1, (hxy _).2, ite_self] at hdecides
    have hanswer : (false == q.positive) = (q == .ne) := by cases q <;> rfl
    rwa [hanswer] at hdecides
  refine ⟨?_, ?_, ?_⟩
  · intro u v a b hx hy hne
    have hdecides := hmeets (.both hx hy hne)
    have hxy (f : Relation) : w.related T (some f) x y = f (fieldsOf a) (fieldsOf b) := by
      unfold World.related
      rw [hx, hy]
    have hyx (f : Relation) : w.related T (some f) y x = f (fieldsOf b) (fieldsOf a) := by
      unfold World.related
      rw [hx, hy]
    rwa [hxy, hyx, ← hlawful.query_eq] at hdecides
  · intro u a hx hy
    have hnone := hy.recovered_eq hfurnished
    exact hneither (fun f => ⟨World.related_none_right hnone f x, World.related_none_left hnone f x⟩)
      (.left hx hy)
  · intro u a hx hy
    have hnone := hx.recovered_eq hfurnished
    exact hneither (fun f => ⟨World.related_none_left hnone f y, World.related_none_right hnone f y⟩)
      (.right hx hy)

/-- Two points and a number. -/
@[irreducible] def pointsWorld : World :=
  after (do
    let _ ← pushUserData ⟨0⟩ Stock.StockType.point.type (Stock.StockType.point.make [.ofInt 1]) 0
    let _ ← pushUserData ⟨0⟩ Stock.StockType.point.type (Stock.StockType.point.make [.ofInt 2]) 0
    pushInteger ⟨0⟩ 5) freshWorld

/-- An instruction about them. -/
def pointsSite (i : Instruction) : Site :=
  { p := default, self := ⟨0⟩, base := 1, limit := 4, pc := 0, i }

def pointsHost : Embedding := { function := fun _ _ => return 0, types := Stock.types }

theorem facts_pointsWorld :
    pointsWorld.liveThread ⟨0⟩ = true ∧ (pointsWorld.thread ⟨0⟩).hook.active = false ∧
      (pointsSite (.abck .lt 1 0 0 true)).question (pointsWorld.thread ⟨0⟩) =
        some (.lt, .userdata ⟨1⟩, .userdata ⟨0⟩) ∧
      (pointsSite (.abck .eq 0 2 0 false)).question (pointsWorld.thread ⟨0⟩) =
        some (.eq, .userdata ⟨0⟩, .int 5) ∧
      ((pointsWorld.recovered ⟨6⟩ (.userdata ⟨0⟩)).map (·.1) = some ⟨0⟩ ∧
        (pointsWorld.recovered ⟨6⟩ (.userdata ⟨1⟩)).map (·.1) = some ⟨1⟩) := by
  decide +kernel

theorem furnished_pointsWorld : pointsWorld.Furnished := by
  have hshared : pointsWorld.shared = .table ⟨2⟩ := by decide +kernel
  have hall : forall k, k ∈ MetaMethod.all -> (pointsWorld.heap.tables.get 2).getStr k.field.toUTF8 =
      .native (.metamethod k) := by decide +kernel
  intro m hm k
  cases hshared.symm.trans hm
  exact hall k (by cases k <;> decide)

/-- The first point is greater than the second one if it is for the host, and not equal to the
number. -/
theorem comparisons_agree_points :
    (exists a b, pointsWorld.recovered ⟨6⟩ (.userdata ⟨0⟩) = some (⟨0⟩, a) ∧
      pointsWorld.recovered ⟨6⟩ (.userdata ⟨1⟩) = some (⟨1⟩, b) ∧
      (pointsSite (.abck .lt 1 0 0 true)).Decides pointsHost.host (engine pointsHost.host 1) ⟨0⟩
        pointsWorld (relations .gt (fieldsOf a) (fieldsOf b)) true) ∧
    (pointsSite (.abck .eq 0 2 0 false)).Decides pointsHost.host (engine pointsHost.host 1) ⟨0⟩
      pointsWorld true true := by
  rcases facts_pointsWorld with ⟨hlive, hquiet, hgreater, hunequal, hfirst, hsecond⟩
  have hcompares : Stock.types.Compares ⟨6⟩ relations :=
    compares_toBound (r := Stock.pointType) rfl rfl rfl
  have hbare : pointsWorld.Silent pointsHost.types ⟨6⟩ (.int 5) := .bare fun c => by
    cases c <;> decide +kernel
  rcases Option.map_eq_some_iff.mp hfirst with ⟨⟨u, a⟩, ha, hu⟩
  rcases Option.map_eq_some_iff.mp hsecond with ⟨⟨v, b⟩, hb, hv⟩
  cases hu
  cases hv
  have htests := Tests.straight (q := .gt) hgreater
  have htests' := Tests.straight (q := .ne) hunequal
  exact ⟨⟨a, b, ha, hb, (comparisons_agree (Engine.calls_succ _ 0) hcompares lawful_relations
      furnished_pointsWorld hlive hquiet htests).1 _ _ _ _ ha hb (by decide)⟩,
    (comparisons_agree (Engine.calls_succ _ 0) hcompares lawful_relations
      furnished_pointsWorld hlive hquiet htests').2.1 _ _ ha hbare⟩

end Machine.Site

end LuaHost
