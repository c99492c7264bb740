import LuaHost.Proofs.Handle.Snapshots
import LuaHost.Proofs.Interface.Merging
import LuaHost.Proofs.Text.Decoding
import LuaHost.Proofs.UserData.Answering
import LuaHost.Stock.Types

/-!
# Fields of records

A script that reads a living record by a key gets what the exported field of that
name holds, and `nil` for every other key.  Integers are read as signed ones of 64
bits: those that are too large for that wrap around.
-/

namespace LuaHost

/-- Every stack can hold as many values as stacks can without an error. -/
theorem Thread.maxStack_le_limit (th : Thread) : Machine.maxStack ≤ th.limit := by
  unfold limit
  split
  · exact Nat.le_refl _
  · omega

/-!
# Fields and their names
-/

namespace IntType

/-- All integer types are at most as wide as the machine's, or its unsigned form. -/
theorem bounds_of_wrap {type : IntType} {n : Int} (h : type.wrap n = n) :
    -2 ^ 63 ≤ n ∧ n < 2 ^ 64 := by
  have hsigned {m : Nat} (hm : 0 < m) (hle : m ≤ 2 ^ 64) (h : n.bmod m = n) :
      -2 ^ 63 ≤ n ∧ n < 2 ^ 64 := by
    have hlow := Int.le_bmod (x := n) hm
    have hhigh := Int.bmod_lt (x := n) hm
    omega
  have hunsigned {m : Nat} (hm : 0 < m) (hle : m ≤ 2 ^ 64) (h : n % (m : Int) = n) :
      -2 ^ 63 ≤ n ∧ n < 2 ^ 64 := by
    have hlow := Int.emod_nonneg n (Int.natCast_ne_zero_iff_pos.mpr hm)
    have hhigh := Int.emod_lt_of_pos n (Int.natCast_pos.mpr hm)
    omega
  cases type <;> first
    | exact hsigned (by decide) (by decide) h
    | exact hunsigned (by decide) (by decide) h

theorem wrap_wrap (type : IntType) (n : Int) : type.wrap (type.wrap n) = type.wrap n := by
  unfold wrap
  cases type.signed with
  | true => exact Int.bmod_bmod
  | false => exact Int.emod_emod_of_dvd n (Int.dvd_refl _)

end IntType

namespace FieldValue

/-- An integer is one of its type. -/
def Fits : FieldValue → Prop
  | integer type n => type.wrap n = n
  | _ => True

/-- The stack slots that it takes to push what a field holds. -/
def slots : FieldValue → Nat
  | value v => v.slots
  | _ => 1

/-- What a field holds, as a script sees it: the same integer, if it is below `2 ^ 63`, and the one
that has the same bits if it is not; the same double, boolean or text; or what a host value becomes,
with new tables from `s` to `s'`. -/
def Seen (s s' : Store Table) : FieldValue → Value → Prop
  | integer _ n, x => exists i : Int64, x = .int i ∧ i.toInt = if n < 2 ^ 63 then n else n - 2 ^ 64
  | double d, x => x = .float d
  | bool b, x => x = .bool b
  | text s, x => x = .ofText s
  | value v, x => s.Extends s' ∧ Shows s' s.next s'.next v x

theorem seen_ofInt {type : IntType} {n : Int} (h : Fits (.integer type n)) (s s' : Store Table) :
    Seen s s' (.integer type n) (.int (Int64.ofInt n)) := by
  have hbounds := IntType.bounds_of_wrap h
  refine ⟨_, rfl, ?_⟩
  rw [Int64.toInt_ofInt]
  show n.bmod (2 ^ 64) = _
  split
  · exact Int.bmod_eq_of_le (by omega) (by omega)
  · unfold Int.bmod
    dsimp only
    omega

end FieldValue

namespace Field

theorem exported_iff {f : Field} : f.exported = true ↔ f.isPublic = true ∧ f.skipped = false := by
  unfold exported
  rw [Bool.and_eq_true, Bool.not_eq_true']

theorem find?_eq_some {before after : List Field} {f : Field} (hf : f.exported = true)
    (hfirst : forall g, g ∈ before -> g.exported = true -> g.scriptName ≠ f.scriptName) :
    find? (before ++ f :: after) f.scriptName = some f := by
  unfold find?
  rw [List.find?_append, List.find?_eq_none.mpr, Option.none_or, List.find?_cons_of_pos]
  · rw [hf, beq_self_eq_true]
    rfl
  · intro g hg h
    rw [Bool.and_eq_true, beq_iff_eq] at h
    exact hfirst g hg h.1 h.2

theorem find?_eq_none {fs : List Field} {name : String}
    (h : forall f, f ∈ fs -> f.exported = true -> f.scriptName ≠ name) : find? fs name = none := by
  refine List.find?_eq_none.mpr fun f hf hfound => ?_
  rw [Bool.and_eq_true, beq_iff_eq] at hfound
  exact h f hf hfound.1 hfound.2

/-- The field that a key stands for. -/
def named (fs : List Field) : Value → Option Field
  | .str s => find? fs s.toText
  | _ => none

theorem named_ofText (fs : List Field) (name : String) :
    named fs (.ofText name) = find? fs name := by
  show find? fs (Bytes.toText name.toUTF8) = _
  rw [Bytes.toText_toUTF8]

theorem named_eq_none {fs : List Field} {k : Value}
    (hclean : forall f, f ∈ fs -> f.exported = true -> '\uFFFD' ∉ f.scriptName.toList)
    (hk : forall f, f ∈ fs -> f.exported = true -> k ≠ .ofText f.scriptName) :
    named fs k = none := by
  cases k with
  | str s =>
      refine find?_eq_none fun f hf hexported hname => hk f hf hexported ?_
      have hbytes := (Bytes.toText_eq_iff (hclean f hf hexported)).mp hname.symm
      exact congrArg Value.str hbytes
  | _ => rfl

theorem exported_ne_nil {fs : List Field} {k : Value} {f : Field} (h : named fs k = some f) :
    (fs.filter exported).isEmpty = false := by
  cases k with
  | str s =>
      have hmem := List.mem_of_find?_eq_some h
      have hfound := List.find?_some h
      rw [Bool.and_eq_true] at hfound
      refine List.isEmpty_eq_false_iff_exists_mem.mpr ⟨f, List.mem_filter.mpr ⟨hmem, hfound.1⟩⟩
  | _ => cases h

end Field

/-!
# Pushing
-/

namespace Interface

open Machine RecordType

variable {t : ThreadId} {w : World}

theorem works_needRoom (n : Nat) : Works t (needRoom t n) := by
  have hpushes (ks : List Nat) : Works t (ks.forM fun _ => pushNil t) := by
    induction ks with
    | nil => exact Moves.pure ()
    | cons k ks ih => exact (works_pushNew .nil).bind fun _ => ih
  exact (hpushes _).bind fun _ => moves_modifyThread fun _ => Thread.worked_of_frames rfl rfl

theorem works_pushHost (v : Data.Value) : Works t (pushHost t v) :=
  (works_needRoom v.slots).bind fun _ => (still_ofHost v).moves.bind fun x => works_push x

theorem answers_pushHost (hlive : w.liveThread t = true) {v : Data.Value}
    (hfits : (w.thread t).top + v.slots ≤ (w.thread t).limit) :
    exists x w', Returns (pushHost t v) w () w' ∧ Answers t w [x] w' ∧
      w.heap.tables.Extends w'.heap.tables ∧
      Shows w'.heap.tables w.heap.tables.next w'.heap.tables.next v x := by
  rcases returns_pushHost_making (R := fun s s' => Shows s' s.next s'.next v) (produces_ofHost v)
    hlive hfits with ⟨x, s, n, w', hpush, hloaded, hextends, hshows⟩
  rcases (works_pushHost v).run hlive
    (hpush ⟨fun _ _ _ _ => throw .exhausted, fun _ _ _ => throw .exhausted⟩) with ⟨hlive', hworked⟩
  rw [← show w'.heap.tables = s from hloaded.heap_tables] at hextends hshows
  refine ⟨x, w', hpush, ⟨hlive', hworked, hloaded.raised.top_eq, hloaded.raised.below.slot_eq, ?_⟩,
    hextends, hshows⟩
  show [(w'.thread t).slot (w.thread t).top] = [x]
  rw [← hloaded.raised.slot_eq 0 x rfl]
  rfl

theorem ends_pushField (hlive : w.liveThread t = true) (hready : (w.thread t).Ready 1)
    {v : FieldValue} (hv : v.Fits) (E : Engine) :
    Ends (pushField t v) E w
      (fun _ w' => exists x, Answers t w [x] w' ∧ v.Seen w.heap.tables w'.heap.tables x)
      fun _ => (w.thread t).limit < (w.thread t).top + v.slots := by
  have hscalar {x : Value} (hx : v.Seen w.heap.tables w.heap.tables x) :
      Ends (pushNew t x) E w
        (fun _ w' => exists x, Answers t w [x] w' ∧ v.Seen w.heap.tables w'.heap.tables x)
        fun _ => (w.thread t).limit < (w.thread t).top + v.slots := by
    rcases answers_pushNew hlive hready x with ⟨th, hpush, hanswers⟩
    exact hpush.ends ⟨x, hanswers, hx⟩
  -- only a host value may need more room than one slot, and makes tables
  cases v with
  | value v =>
      by_cases hfits : (w.thread t).top + v.slots ≤ (w.thread t).limit
      · rcases answers_pushHost hlive hfits with ⟨x, w', hpush, hanswers, hextends, hshows⟩
        exact hpush.ends ⟨x, hanswers, hextends, hshows⟩
      · have hover := Nat.lt_of_not_le hfits
        refine Ends.bind (P := fun _ _ => False) (ends_iff.mpr ⟨fun a w' h => ?_, fun _ _ _ => hover⟩)
          fun _ _ h => h.elim
        exact (needs_needRoom hlive (Assembling.slots_pos v)).stops hover E a w' h
  | integer type n => exact hscalar (FieldValue.seen_ofInt hv _ _)
  | double d => exact hscalar rfl
  | bool b => exact hscalar rfl
  | text s => exact hscalar rfl

/-!
# The answer of a record
-/

variable {x k : Value} {u : UserDataId} {b : Block}

theorem Asked.returns_value (h : Asked t x k w) : Returns (value? t 2) w (some k) w := by
  have hplace : w.placeOf (w.thread t) 2 ≠ .nowhere := by
    have hheight := h.height_eq
    unfold Thread.height Thread.base at hheight
    unfold World.placeOf
    rw [if_pos (by decide), if_pos (by show (w.thread t).frame.func + 2 < _; omega)]
    exact nofun
  have hread := returns_value?_at w t 2
  unfold World.value? at hread
  rwa [if_neg hplace, h.second] at hread

theorem Asked.returns_typeOf (h : Asked t x k w) : Returns (typeOf t 2) w k.kind w := by
  refine Returns.bind (returns_checkIndex rfl) ?_
  exact Returns.bind h.returns_value (Returns.pure _ w)

theorem Asked.returns_toText {s : Bytes} (h : Asked t x (.str s) w) :
    Returns (toText t 2) w (some s.toText) w := by
  have hread := returns_valueAt w t (w.placeOf (w.thread t) 2)
  rw [show w.valueOf (w.thread t) (w.placeOf (w.thread t) 2) = .str s from h.second] at hread
  have hbytes : Returns (toBytesAt t 2) w (some s) w :=
    Returns.bind (returns_place w t 2) (Returns.bind hread (Returns.pure _ w))
  exact Returns.bind (Returns.bind (returns_checkIndex rfl) hbytes) (Returns.pure _ w)

theorem returns_hostValue (hblock : w.block? u = some b) : Returns (hostValue u) w b.value w := by
  have hread := returns_blockOf w u
  rw [hblock] at hread
  exact Returns.bind hread (Returns.pure _ w)

/-- A record has nothing to say of a key that stands for no field. -/
theorem returns_answerIndex_none (h : Asked t x k w) (hblock : w.block? u = some b)
    (hnamed : Field.named (fieldsOf b.value) k = none) : Returns (answerIndex u t) w 0 w := by
  refine Returns.bind (returns_hostValue hblock) ?_
  dsimp only
  split
  · exact Returns.pure 0 w
  · refine Returns.bind h.returns_typeOf ?_
    cases k with
    | str s =>
        refine Returns.bind h.returns_toText ?_
        dsimp only
        rw [show Field.find? (fieldsOf b.value) s.toText = none from hnamed]
        exact Returns.pure 0 w
    | _ => exact Returns.pure 0 w

theorem ends_answerIndex (h : Asked t x k w) (hblock : w.block? u = some b) {f : Field}
    (hnamed : Field.named (fieldsOf b.value) k = some f) (hf : f.value.Fits) (E : Engine) :
    Ends (answerIndex u t) E w
      (fun n w' => n = 1 ∧
        exists y, Answers t w [y] w' ∧ f.value.Seen w.heap.tables w'.heap.tables y)
      fun _ => (w.thread t).limit < (w.thread t).top + f.value.slots := by
  refine Ends.after (returns_hostValue hblock) ?_
  dsimp only
  rw [Field.exported_ne_nil hnamed, if_neg Bool.false_ne_true]
  refine Ends.after h.returns_typeOf ?_
  cases k with
  | str s =>
      refine Ends.after h.returns_toText ?_
      dsimp only
      rw [show Field.find? (fieldsOf b.value) s.toText = some f from hnamed]
      refine Ends.bind (ends_pushField h.live h.readyOne hf E) fun _ w' hpushed => ?_
      exact (Returns.pure 1 w').ends ⟨rfl, hpushed⟩
  | _ => cases hnamed

end Interface

/-!
# The record types at hand
-/

namespace Stock

open Interface Machine RecordType

theorem fits_integer (n : Int64) : (FieldValue.integer .i64 n.toInt).Fits :=
  Int.bmod_eq_of_le n.le_toInt n.toInt_lt

theorem fits_fieldsOfEachKind (n : Int64) {f : Field} (hf : f ∈ fieldsOfEachKind n) :
    f.value.Fits := by
  unfold fieldsOfEachKind at hf
  rcases List.mem_append.mp hf with hf | hf
  · rcases List.mem_map.mp hf with ⟨type, _, rfl⟩
    exact type.wrap_wrap n.toInt
  · simp only [List.mem_cons, List.not_mem_nil, or_false] at hf
    rcases hf with rfl | rfl | rfl | rfl | rfl | rfl | rfl <;> trivial

theorem names_fieldsOfEachKind (n : Int64) :
    ((fieldsOfEachKind n).filter Field.exported).map Field.scriptName =
      ["i8", "i16", "i32", "i64", "isize", "u8", "u16", "u32", "u64", "usize", "f32", "f64", "bool",
        "string", "number", "value", "table"] :=
  rfl

/-- The integers of all records are of their types, and no two exported fields of a record have the
same name, nor one with a replacement character. -/
theorem fields_make {s : StockType} {args : List Data.Value} {fs : List Field}
    (h : s.make args = .record fs) :
    (forall f, f ∈ fs -> f.value.Fits) ∧
      ((fs.filter Field.exported).map Field.scriptName).Nodup ∧
      forall f, f ∈ fs -> f.exported = true -> '\uFFFD' ∉ f.scriptName.toList := by
  -- the names do not depend on what the values are made from
  have hnames {names : List String} (hfs : (fs.filter Field.exported).map Field.scriptName = names)
      (hgood : names.Nodup ∧ forall name, name ∈ names -> '\uFFFD' ∉ name.toList) :
      ((fs.filter Field.exported).map Field.scriptName).Nodup ∧
        forall f, f ∈ fs -> f.exported = true -> '\uFFFD' ∉ f.scriptName.toList := by
    refine ⟨hfs ▸ hgood.1, fun f hf hexported => hgood.2 _ ?_⟩
    rw [← hfs]
    exact List.mem_map_of_mem (List.mem_filter.mpr ⟨hf, hexported⟩)
  cases s with
  | point =>
      cases h
      refine ⟨?_, hnames (show _ = ["x", "y", "label"] from rfl) (by decide)⟩
      intro f hf
      simp only [pointFields, List.mem_cons, List.not_mem_nil, or_false] at hf
      rcases hf with rfl | rfl | rfl | rfl | rfl <;> trivial
  | fields =>
      cases h
      exact ⟨fun f hf => fits_fieldsOfEachKind _ hf,
        hnames (names_fieldsOfEachKind _) (by decide +kernel)⟩
  | pair =>
      cases h
      refine ⟨?_, hnames (show _ = [] from rfl) (by decide)⟩
      intro f hf
      rcases List.mem_pair.mp hf with rfl | rfl <;> exact fits_integer _
  | marker =>
      cases h
      exact ⟨nofun, hnames (show _ = [] from rfl) (by decide)⟩
  | _ => cases h

end Stock

namespace Interface

open Machine RecordType

variable {t : ThreadId} {w : World} {u : UserDataId} {b : Block} {k : Value}

theorem Holds.living {w' : World} (h : Holds w u b w') (halive : b.alive = true) :
    w'.livingTo (.userdata u) = some (u, b) := by
  rcases h.find?_new with ⟨m, userValues, hshared, hfind⟩
  have hget : w'.userdata u = { payload := .block b, metatable := some m, userValues } :=
    Store.get_of_find? hfind
  refine World.livingTo_eq_some.mpr ⟨rfl, World.isShared_iff.mpr ⟨m, ?_, hshared⟩, ?_, halive⟩
  · rw [hget]
  · unfold World.block?
    rw [hget]

/-!
# Reading a field
-/

variable {e : Embedding} {E E₀ : Engine} {r : RecordType} {o : Origin}

/-- The type of a living userdata is asked for the value of a key. -/
theorem ends_indexFrom {P : Prop} {Q : Value → World → Prop} (hE : E.Calls e.host E₀)
    (hT : e.types b.type = r.toBound b.type) (hfurnished : w.Furnished)
    (hlive : w.liveThread t = true) (hquiet : (w.thread t).hook.active = false)
    (hliving : w.livingTo (.userdata u) = some (u, b))
    (hanswer : forall th, Asked t (.userdata u) k (w.setThread t th) ->
      th.top = (w.thread t).top + 3 ->
      Ends (answerIndex u t) E₀ (w.setThread t th)
        (fun n w' => exists rs, rs.length = n ∧ Answers t (w.setThread t th) rs w' ∧
          Q (rs.headD .nil) w')
        fun _ => ¬ P) :
    Ends (indexFrom t (.userdata u) k o) E w
      (fun v w' => exists w₁ th, Q v w₁ ∧ w' = w₁.setThread t th ∧ (w.thread t).Unmoved th)
      fun _ => ¬ (P ∧ (w.thread t).Affords 3) := by
  have hhandler := hfurnished.handler_eq (World.livingTo_eq_some.mp hliving).2.1
    (show Event.index.field = MetaMethod.index.field.toUTF8 by decide +kernel)
  have hevent := returns_metaEvent w (.userdata u) .index
  rw [hhandler] at hevent
  have hends := ends_operation (m := .index) (x := .userdata u) (y := k) hE (by decide) (by decide)
    hlive hquiet (by rw [hliving]; rfl) fun th hasked htop => by
      rw [hT]
      exact hanswer th hasked htop
  exact Ends.after hevent hends

/-- Whatever a living record is indexed with: the name of an exported field gives what the field
holds, with integers from `2 ^ 63` on as the negative ones of the same bits, and every other key
gives `nil`.  Where an earlier exported field has the same name, a field is not reached. -/
theorem fields_exposed (hE : E.Calls e.host E₀) (hT : e.types b.type = r.toBound b.type)
    (hfurnished : w.Furnished) (hlive : w.liveThread t = true)
    (hquiet : (w.thread t).hook.active = false)
    (hliving : w.livingTo (.userdata u) = some (u, b)) (o : Origin) :
    (forall before f after, fieldsOf b.value = before ++ f :: after ->
      f.isPublic = true -> f.skipped = false -> f.value.Fits ->
      (forall g, g ∈ before -> g.exported = true -> g.scriptName ≠ f.scriptName) ->
      Ends (indexFrom t (.userdata u) (.ofText f.scriptName) o) E w
        (fun v w' => f.value.Seen w.heap.tables w'.heap.tables v ∧
          (w.thread t).Unmoved (w'.thread t))
        fun _ => ¬ ((w.thread t).top + 3 + f.value.slots ≤ maxStack ∧ (w.thread t).Affords 3)) ∧
    ((forall f, f ∈ fieldsOf b.value -> f.exported = true -> '\uFFFD' ∉ f.scriptName.toList) ->
      forall k, (forall f, f ∈ fieldsOf b.value -> f.isPublic = true -> f.skipped = false ->
        k ≠ .ofText f.scriptName) ->
      Ends (indexFrom t (.userdata u) k o) E w
        (fun v w' => v = .nil ∧ w' = w.setThread t (w'.thread t) ∧
          (w.thread t).Unmoved (w'.thread t))
        fun _ => ¬ (w.thread t).Affords 3) := by
  have hblock := (World.livingTo_eq_some.mp hliving).2.2.1
  constructor
  · intro before f after hfs hpublic hkept hf hfirst
    have hnamed : Field.named (fieldsOf b.value) (.ofText f.scriptName) = some f := by
      rw [Field.named_ofText, hfs]
      exact Field.find?_eq_some (Field.exported_iff.mpr ⟨hpublic, hkept⟩) hfirst
    have hends := ends_indexFrom (o := o) (P := (w.thread t).top + 3 + f.value.slots ≤ maxStack)
      (Q := fun v w' => w'.liveThread t = true ∧ f.value.Seen w.heap.tables w'.heap.tables v)
      hE hT hfurnished hlive hquiet hliving fun th hasked htop => by
        refine (ends_answerIndex hasked hblock hnamed hf E₀).imp ?_ fun _ hover hfits => ?_
        · rintro n w' ⟨rfl, y, hanswers, hseen⟩
          exact ⟨[y], rfl, hanswers, hanswers.live, hseen⟩
        · rw [World.thread_setThread hlive, htop] at hover
          have hlimit := th.maxStack_le_limit
          omega
    refine hends.imp ?_ fun _ h => h
    rintro v w' ⟨w₁, th, ⟨hlive₁, hseen⟩, rfl, hunmoved⟩
    rw [World.thread_setThread hlive₁]
    exact ⟨hseen, hunmoved⟩
  · intro hclean k hk
    have hnamed : Field.named (fieldsOf b.value) k = none :=
      Field.named_eq_none hclean fun f hf hexported =>
        hk f hf (Field.exported_iff.mp hexported).1 (Field.exported_iff.mp hexported).2
    have hends := ends_indexFrom (o := o) (P := True)
      (Q := fun v w' => v = .nil ∧ exists th, w' = w.setThread t th)
      hE hT hfurnished hlive hquiet hliving fun th hasked _ =>
        (returns_answerIndex_none hasked hblock hnamed).ends
          ⟨[], rfl, answers_nothing hasked.live, rfl, th, rfl⟩
    refine hends.imp ?_ fun _ h hafford => h ⟨trivial, hafford⟩
    rintro v w' ⟨w₁, th, ⟨rfl, th', rfl⟩, rfl, hunmoved⟩
    rw [World.setThread_setThread, World.thread_setThread hlive]
    exact ⟨rfl, rfl, hunmoved⟩

/-- A record with a field of each kind, all made from the least integer. -/
@[irreducible] def leastWorld : World :=
  after (pushUserData ⟨0⟩ Stock.StockType.fields.type
    (.record (Stock.fieldsOfEachKind Int64.minValue)) 0) freshWorld

def recordsHost : Embedding := { function := fun _ _ => return 0, types := Stock.types }

theorem facts_leastWorld :
    leastWorld.liveThread ⟨0⟩ = true ∧ (leastWorld.thread ⟨0⟩).hook.active = false ∧
      (leastWorld.thread ⟨0⟩).top = 2 ∧ (leastWorld.thread ⟨0⟩).nesting + 1 < maxNesting ∧
      (leastWorld.thread ⟨0⟩).top + 23 + 1 ≤ (leastWorld.thread ⟨0⟩).room := by
  decide +kernel

theorem furnished_leastWorld : leastWorld.Furnished := by
  have hfacts : leastWorld.shared = .table ⟨2⟩ ∧ forall k, k ∈ MetaMethod.all ->
      (leastWorld.heap.tables.get 2).getStr k.field.toUTF8 = .native (.metamethod k) := by
    decide +kernel
  intro m hm k
  cases hfacts.1.symm.trans hm
  exact hfacts.2 k (by cases k <;> decide)

theorem living_leastWorld : leastWorld.livingTo (.userdata ⟨0⟩) =
    some (⟨0⟩, { type := ⟨7⟩, value := .record (Stock.fieldsOfEachKind Int64.minValue) }) := by
  have hpush := ok_after (x := pushUserData ⟨0⟩ Stock.StockType.fields.type
    (.record (Stock.fieldsOfEachKind Int64.minValue)) 0) (w := freshWorld) (a := ⟨0⟩)
    (by decide +kernel)
  unfold leastWorld
  exact (ok_pushUserData rfl (by decide) (Or.inl (by decide +kernel)) hpush).living rfl

/-- Its field that is an unsigned integer of 64 bits. -/
def unsignedField : Field := { ident := "u64", value := .integer .u64 (2 ^ 63) }

theorem split_leastWorld : Stock.fieldsOfEachKind Int64.minValue =
    (Stock.fieldsOfEachKind Int64.minValue).take 8 ++
      unsignedField :: (Stock.fieldsOfEachKind Int64.minValue).drop 9 :=
  rfl

/-- The unsigned field is read, and nothing is where there is no field. -/
theorem fields_exposed_least :
    Ends (indexFrom ⟨0⟩ (.userdata ⟨0⟩) (.ofText "u64") .unknown) (engine recordsHost.host 1)
      leastWorld
      (fun v w' => unsignedField.value.Seen leastWorld.heap.tables w'.heap.tables v ∧
        (leastWorld.thread ⟨0⟩).Unmoved (w'.thread ⟨0⟩))
      (fun _ => False) ∧
    Ends (indexFrom ⟨0⟩ (.userdata ⟨0⟩) (.int 1) .unknown) (engine recordsHost.host 1) leastWorld
      (fun v w' => v = .nil ∧ w' = leastWorld.setThread ⟨0⟩ (w'.thread ⟨0⟩) ∧
        (leastWorld.thread ⟨0⟩).Unmoved (w'.thread ⟨0⟩))
      fun _ => False := by
  rcases facts_leastWorld with ⟨hlive, hquiet, htop, hnesting, hroom⟩
  have haffords : (leastWorld.thread ⟨0⟩).Affords 3 := ⟨hnesting, Or.inl hroom⟩
  have hexposed := fields_exposed (E := engine recordsHost.host 1) (e := recordsHost)
    (r := Stock.fieldsType) (Engine.calls_succ _ 0) rfl furnished_leastWorld hlive hquiet
    living_leastWorld .unknown
  have hmade := Stock.fields_make
    (show Stock.StockType.fields.make [.ofInt Int64.minValue] = .record _ from rfl)
  have hfits : (leastWorld.thread ⟨0⟩).top + 3 + unsignedField.value.slots ≤ maxStack := by
    rw [htop]
    decide
  constructor
  · have hread := hexposed.1 _ unsignedField _ split_leastWorld rfl rfl
      (show IntType.u64.wrap (2 ^ 63) = 2 ^ 63 by decide) (by decide +kernel)
    exact hread.imp (fun _ _ h => h) fun _ h => h ⟨hfits, haffords⟩
  · exact (hexposed.2 hmade.2.2 (.int 1) nofun).imp (fun _ _ h => h) fun _ h => h haffords

/-- The unsigned field does not fit in the machine's integers, and is read as a negative one. -/
theorem unsigned_wraps :
    leastWorld.livingTo (.userdata ⟨0⟩) =
      some (⟨0⟩, { type := ⟨7⟩, value := .record (Stock.fieldsOfEachKind Int64.minValue) }) ∧
    unsignedField ∈ Stock.fieldsOfEachKind Int64.minValue ∧
    unsignedField.isPublic = true ∧ unsignedField.skipped = false ∧
    unsignedField.value = .integer .u64 9223372036854775808 ∧
    (match indexFrom ⟨0⟩ (.userdata ⟨0⟩) (.ofText unsignedField.scriptName) .unknown
        (engine recordsHost.host 1) leastWorld with
      | .ok v _ => some v
      | .error _ _ => none) = some (.int (-9223372036854775808)) ∧
    (-9223372036854775808 : Int64).toInt ≠ 9223372036854775808 := by
  refine ⟨living_leastWorld, ?_, rfl, rfl, rfl, by decide +kernel, by decide⟩
  rw [split_leastWorld]
  exact List.mem_append_right _ (List.mem_cons_self ..)

end Interface

end LuaHost
