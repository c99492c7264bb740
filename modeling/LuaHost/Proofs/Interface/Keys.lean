import LuaHost.Interface.PushHost
import LuaHost.Proofs.Interface.Unfolding
import LuaHost.Proofs.Machine.Enumeration
import LuaHost.Proofs.Numeric.Equality

/-!
# Keys on both sides

A stored key of the host goes to the machine, which stores integral doubles as
integers, and comes back as the key it was.  In the other direction two keys
of the machine can only meet when a string is not UTF-8 or an integer is too
large for the doubles.
-/

namespace LuaHost

/-!
# Texts
-/

theorem Bytes.fromUTF8?_eq {b : Bytes} {s : String} (h : String.fromUTF8? b = some s) :
    s.toUTF8 = b := by
  unfold String.fromUTF8? at h
  split at h
  · cases h
    rfl
  · cases h

theorem Bytes.fromUTF8?_toUTF8 (s : String) : String.fromUTF8? s.toUTF8 = some s := by
  have hvalid : s.toUTF8.IsValidUTF8 := s.isValidUTF8
  unfold String.fromUTF8?
  rw [dif_pos hvalid]
  rfl

theorem Bytes.toText_toUTF8 (s : String) : Bytes.toText s.toUTF8 = s := by
  unfold Bytes.toText
  rw [fromUTF8?_toUTF8]

/-!
# Doubles as keys
-/

theorem FloatKey.ofDouble_zero {x : Double} {y : FloatKey} (h : FloatKey.ofDouble x = some y)
    (hzero : y.value.isZero = true) : y.value = Double.zero := by
  unfold ofDouble at h
  split at h
  · cases h
  · cases h
    by_cases hx : x.isZero
    · exact if_pos hx
    · have hvalue : (if x.isZero = true then Double.zero else x) = x := if_neg hx
      rw [show (⟨if x.isZero = true then Double.zero else x⟩ : FloatKey).value = x from hvalue]
        at hzero
      exact absurd hzero hx

/-!
# From the host and back
-/

namespace TableKey

/-- The key under which the machine stores an entry of a host table. -/
def machineKey (s : TableKey) : Value := s.toMachine.asKey

end TableKey

namespace Data.Table

/-- No key of the table is a double that equals a positive integer below
`2 ^ 63`. -/
def NoPositiveIntegralKey (t : Table) : Prop :=
  forall x v i, (.number x, v) ∈ t.map -> x.value.toInt64? = some i -> i.toInt ≤ 0

/-- What the stored form of a key promises, also of integral doubles. -/
inductive Faithful : TableKey → Prop where
  | bool (b : Bool) : Faithful (.bool b)
  | string (s : String) : Faithful (.string s)
  | integer {i : Int64} : 1 ≤ i.toInt → Faithful (.integer i)
  | number {x : FloatKey} : FloatKey.ofDouble x.value = some x →
      (forall i, x.value.toInt64? = some i -> i.toInt ≤ 0) → Faithful (.number x)

theorem faithful_of_lookup {t : Table} (ht : WellFormed t) (hkeys : NoPositiveIntegralKey t)
    {s : TableKey} {v : Value} (h : t.lookup s = some v) : Faithful s := by
  cases ho : offset? t.narr s with
  | some i =>
      have hi := offset?_some ho
      have hsize := ht.size_lt
      rw [hi.2]
      apply Faithful.integer
      rw [toInt_ofNat (by omega)]
      omega
  | none =>
      rw [lookup_of_no_offset ho] at h
      have hmem := Entries.mem_of_find? h
      cases s with
      | bool b => exact Faithful.bool b
      | string s => exact Faithful.string s
      | integer i =>
          have hfar := ht.integer_far i v hmem
          exact Faithful.integer (by omega)
      | number x => exact Faithful.number (ht.number_stored x v hmem) fun i => hkeys x v i hmem

/-- A key that goes to the machine comes back as it was. -/
theorem Faithful.hostKey?_machineKey {s : TableKey} (h : Faithful s) :
    s.machineKey.hostKey? = some s := by
  cases h with
  | bool b => rfl
  | string s =>
      show some (TableKey.string (Bytes.toText s.toUTF8)) = _
      rw [Bytes.toText_toUTF8]
  | @integer i hi => exact if_pos hi
  | @number x hstored hkeys =>
      unfold TableKey.machineKey TableKey.toMachine Value.asKey
      simp only
      cases hx : x.value.toInt64? with
      | none =>
          show (FloatKey.ofDouble x.value).map TableKey.number = _
          rw [hstored]
          rfl
      | some i =>
          have hi := hkeys i hx
          show (if 1 ≤ i.toInt then _ else _) = _
          rw [if_neg (by omega), Double.ofInt64_of_toInt64? hx (FloatKey.ofDouble_zero hstored),
            hstored]
          rfl

theorem Faithful.machineKey_inj {s s' : TableKey} (h : Faithful s) (h' : Faithful s')
    (heq : s.machineKey = s'.machineKey) : s = s' := by
  have hkey := h.hostKey?_machineKey
  rw [heq, h'.hostKey?_machineKey] at hkey
  exact (Option.some.inj hkey).symm

end Data.Table

/-!
# From the machine and back
-/

namespace Value

/-- A key of a machine table that has a form on the host's side: a truth value, a
text or a number, which no key is unless it is stored. -/
inductive HeldKey : Value → Prop where
  | bool (b : Bool) : HeldKey (.bool b)
  | text (s : String) : HeldKey (.str s.toUTF8)
  | int (i : Int64) : HeldKey (.int i)
  | float {x : Double} : x.isNaN = false → x.toInt64? = none → HeldKey (.float x)

/-- What the way through the host makes of a key: an integer that is not
positive becomes the double nearest to it, as a key. -/
def rounded : Value → Value
  | .int i => if 1 ≤ i.toInt then .int i else (Value.float (Double.ofInt64 i)).asKey
  | k => k

theorem rounded_int {i : Int64} (hi : ¬ 1 ≤ i.toInt) :
    (Value.int i).rounded = (Value.float (Double.ofInt64 i)).asKey := if_neg hi

/-- An integer is not rounded when some double is equal to it. -/
theorem rounded_of_exact {i : Int64} (h : (Double.ofInt64 i).toInt64? = some i) :
    (Value.int i).rounded = .int i := by
  by_cases hi : 1 ≤ i.toInt
  · exact if_pos hi
  · rw [rounded_int hi, asKey_integral h]

theorem rounded_of_large {i : Int64} (h : -(2 ^ 53) ≤ i.toInt) :
    (Value.int i).rounded = .int i := by
  by_cases hi : 1 ≤ i.toInt
  · exact if_pos hi
  · exact rounded_of_exact (Double.toInt64?_ofInt64 (by omega))

theorem HeldKey.hostKey? {k : Value} (h : k.HeldKey) :
    exists s, k.hostKey? = some s ∧ s.machineKey = k.rounded := by
  cases h with
  | bool b => exact ⟨.bool b, rfl, rfl⟩
  | text s =>
      refine ⟨.string (Bytes.toText s.toUTF8), rfl, ?_⟩
      show Value.str (Bytes.toText s.toUTF8).toUTF8 = .str s.toUTF8
      rw [Bytes.toText_toUTF8]
  | int i =>
      -- only positive integers are integers among the keys of the host, any other goes through its
      -- double
      by_cases hi : 1 ≤ i.toInt
      · refine ⟨.integer i, if_pos hi, ?_⟩
        exact (if_pos hi).symm
      · have hkey : FloatKey.ofDouble (Double.ofInt64 i) =
            some ⟨if (Double.ofInt64 i).isZero then Double.zero else Double.ofInt64 i⟩ := by
          unfold FloatKey.ofDouble
          rw [Double.isNaN_ofInt64, if_neg Bool.false_ne_true]
        refine ⟨.number ⟨if (Double.ofInt64 i).isZero then Double.zero else Double.ofInt64 i⟩,
          ?_, ?_⟩
        · show (if 1 ≤ i.toInt then _ else _) = _
          rw [if_neg hi, hkey]
          rfl
        · show asKey (.float (if (Double.ofInt64 i).isZero then Double.zero else Double.ofInt64 i)) =
            _
          rw [rounded_int hi]
          by_cases hzero : (Double.ofInt64 i).isZero
          · rw [if_pos hzero, asKey_integral (Double.toInt64?_of_isZero hzero),
              asKey_integral (x := Double.zero) (Double.toInt64?_of_isZero rfl)]
          · rw [if_neg hzero]
  | @float x hnan hfraction =>
      have hzero : ¬ x.isZero = true := by
        intro hzero
        rw [Double.toInt64?_of_isZero hzero] at hfraction
        cases hfraction
      refine ⟨.number ⟨x⟩, ?_, ?_⟩
      · show (FloatKey.ofDouble x).map TableKey.number = _
        unfold FloatKey.ofDouble
        rw [hnan, if_neg Bool.false_ne_true, if_neg hzero]
        rfl
      · exact asKey_fraction hfraction

/-- A double among the host's keys that equals an integer stands for one that is
not positive. -/
theorem HeldKey.toInt_le {k : Value} (h : k.HeldKey) {x : FloatKey} {i : Int64}
    (hk : k.hostKey? = some (.number x)) (hx : x.value.toInt64? = some i) : i.toInt ≤ 0 := by
  rcases h.hostKey? with ⟨s, hs, hrounded⟩
  rw [hk] at hs
  cases hs
  have hint : k.rounded = .int i := by
    rw [← hrounded]
    exact asKey_integral hx
  cases h with
  | bool b => cases hint
  | text s => cases hint
  | float _ _ => cases hint
  | int j =>
      have hj : ¬ 1 ≤ j.toInt := by
        intro hj
        have hform : (Value.int j).hostKey? = some (.integer j) := if_pos hj
        rw [hform] at hk
        cases hk
      rw [rounded_int hj] at hint
      cases hy : (Double.ofInt64 j).toInt64? with
      | none =>
          rw [asKey_fraction hy] at hint
          cases hint
      | some l =>
          rw [asKey_integral hy] at hint
          cases hint
          exact Double.toInt_ofInt64_le (by omega) hy

/-- A value that the host can hold, whatever is inside it when it is a table. -/
inductive Held : Value → Prop where
  | nil : Held .nil
  | bool (b : Bool) : Held (.bool b)
  | int (i : Int64) : Held (.int i)
  | float (x : Double) : Held (.float x)
  | text (s : String) : Held (.str s.toUTF8)
  | light (p : UInt64) : Held (.light p)
  | table (i : TableId) : Held (.table i)

/-- A key in stored form with an exact form on the host's side. -/
structure PlainKey (k : Value) : Prop where
  stored : k.asKey = k
  text : forall s, k = .str s -> exists u, String.fromUTF8? s = some u
  exact : forall i, k = .int i -> -(2 ^ 53) < i.toInt

theorem PlainKey.rounded_eq {k : Value} (hk : k.PlainKey) : k.rounded = k := by
  cases k with
  | int i =>
      have hsmall := hk.exact i rfl
      exact rounded_of_large (by omega)
  | _ => rfl

theorem PlainKey.held {k : Value} (hk : k.PlainKey) {s : TableKey} (h : k.hostKey? = some s) :
    k.HeldKey := by
  cases k with
  | bool b => exact HeldKey.bool b
  | str b =>
      rcases hk.text b rfl with ⟨u, hu⟩
      exact Bytes.fromUTF8?_eq hu ▸ HeldKey.text u
  | int i => exact HeldKey.int i
  | float x =>
      have hfraction : x.toInt64? = none := by
        have hstored := hk.stored
        cases hx : x.toInt64? with
        | none => rfl
        | some i =>
            rw [asKey_integral hx] at hstored
            cases hstored
      have hform : (FloatKey.ofDouble x).map TableKey.number = some s := h
      rcases Option.map_eq_some_iff.mp hform with ⟨y, hy, _⟩
      refine HeldKey.float ?_ hfraction
      by_contra hnan
      rw [Bool.not_eq_false] at hnan
      rw [FloatKey.ofDouble_eq_none.mpr hnan] at hy
      cases hy
  | _ => cases h

theorem PlainKey.machineKey_eq {k : Value} (hk : k.PlainKey) {s : TableKey}
    (h : k.hostKey? = some s) : s.machineKey = k := by
  rcases (hk.held h).hostKey? with ⟨s', hs', hrounded⟩
  rw [h] at hs'
  cases hs'
  rw [hrounded, hk.rounded_eq]

end Value

/-- Keys only meet on the host's side when one of them is a string that is not
UTF-8, or an integer at or below `-2 ^ 53`. -/
theorem keysApart_of_plain {t : Table} (h : forall e, e ∈ t.entries -> e.1.PlainKey) :
    KeysApart t.entries := by
  intro e f s he hf hes hfs
  apply Table.entries_key_inj he hf
  rw [← (h e he).machineKey_eq hes, ← (h f hf).machineKey_eq hfs]

end LuaHost
