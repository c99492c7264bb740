import LuaHost.Chunk.Emit
import LuaHost.Machine.Execute
import LuaHost.Proofs.Interface.Handling

/-!
# Tests of two values

Scripts have six ways to compare two values, and the machine has three
comparisons: the other ones exchange the operands or negate the answer.  The
compiler says so in the instruction, whose flag tells which answer the jump
behind it waits for.
-/

namespace LuaHost

/-- The instruction that compares two registers. -/
def Comparison.opcode : Comparison → Opcode
  | eq => .eq
  | lt => .lt
  | le => .le

/-- What scripts can ask of two values. -/
inductive Query where
  | eq | ne | lt | le | gt | ge
deriving DecidableEq

namespace Query

/-- The operator of the question. -/
def operator : Query → Compile.BinaryOp
  | eq => .eq
  | ne => .ne
  | lt => .lt
  | le => .le
  | gt => .gt
  | ge => .ge

/-- The comparison that the machine makes for it. -/
def comparison : Query → Comparison
  | eq | ne => .eq
  | lt | gt => .lt
  | le | ge => .le

/-- Whether the machine compares the operands the other way round. -/
def exchanged : Query → Bool
  | gt | ge => true
  | _ => false

/-- What the machine's comparison has to answer. -/
def positive : Query → Bool
  | ne => false
  | _ => true

/-- The instruction for the question about two registers. -/
def test (q : Query) (a b : Nat) : Instruction :=
  if q.exchanged then .abck q.comparison.opcode b a 0 q.positive
  else .abck q.comparison.opcode a b 0 q.positive

end Query

/-!
# What is compiled
-/

namespace Compile

variable {α β : Type} {σ : Compilation}

/-- The instructions of the function so far. -/
def code (σ : Compilation) : List Instruction := σ.function.p.code.toList

/-- The computation returns, and has appended some instructions. -/
def Appends (m : Compile α) (σ : Compilation) (a : α) (is : List Instruction) : Prop :=
  exists σ', m σ = .ok a σ' ∧ code σ' = code σ ++ is

theorem Appends.bind {m : Compile α} {f : α → Compile β} {a : α} {b : β} {k l : List Instruction}
    (hm : Appends m σ a k) (hf : forall σ', code σ' = code σ ++ k -> Appends (f a) σ' b l) :
    Appends (m >>= f) σ b (k ++ l) := by
  rcases hm with ⟨σ', hrun, hcode⟩
  rcases hf σ' hcode with ⟨σ'', hrun', hcode'⟩
  refine ⟨σ'', ?_, ?_⟩
  · show EStateM.bind m f σ = _
    unfold EStateM.bind
    rw [hrun]
    exact hrun'
  · rw [hcode', hcode, List.append_assoc]

theorem appends_of_ok {m : Compile α} {a : α} {σ' : Compilation} (h : m σ = .ok a σ')
    (hcode : code σ' = code σ) : Appends m σ a [] :=
  ⟨σ', h, by rw [hcode, List.append_nil]⟩

theorem appends_pure (a : α) : Appends (pure a) σ a [] := appends_of_ok rfl rfl

theorem Appends.after {m : Compile α} {f : α → Compile β} {a : α} {b : β} {is : List Instruction}
    (hm : Appends m σ a []) (hf : forall σ', code σ' = code σ -> Appends (f a) σ' b is) :
    Appends (m >>= f) σ b is :=
  hm.bind fun σ' hcode => hf σ' (by rw [hcode, List.append_nil])

theorem appends_modifyFn {f : Function → Function} (h : forall x, (f x).p.code = x.p.code) :
    Appends (modifyFn f) σ () [] :=
  appends_of_ok rfl (congrArg Array.toList (h σ.function))

theorem appends_saveLine (line : Nat) : Appends (saveLine line) σ () [] := by
  refine appends_modifyFn fun f => ?_
  dsimp only
  split <;> rfl

theorem appends_emit (i : Instruction) : Appends (emit i) σ (code σ).length [i] := by
  have hhere : Appends here σ (code σ).length [] := appends_of_ok rfl rfl
  have hpush (σ' : Compilation) : Appends (modifyProto fun p => { p with code := p.code.push i })
      σ' () [i] := ⟨_, rfl, Array.toList_push⟩
  have hget (σ' : Compilation) : Appends get σ' σ' [] := appends_of_ok rfl rfl
  refine hhere.after fun σ' _ => ?_
  refine (hpush σ').bind (l := []) fun σ₁ _ => ?_
  refine (hget σ₁).after fun σ₂ _ => ?_
  exact (appends_saveLine σ₁.lastLine).after fun _ _ => appends_pure _

/-- The jump behind a test, whose target is not known yet. -/
def openJump : Instruction := Instruction.setSj (Instruction.withAx .jmp 0) noJump

theorem appends_emitTest (o : Opcode) (a b c : Nat) (k : Bool) :
    Appends (emitTest o a b c k) σ ((code σ).length + 1) [.abck o a b c k, openJump] := by
  refine (appends_emit (.abck o a b c k)).bind (l := [openJump]) fun σ' hcode => ?_
  have hlength : (code σ').length = (code σ).length + 1 := by
    rw [hcode, List.length_append, List.length_singleton]
  rw [← hlength]
  exact appends_emit openJump

theorem appends_freeRegister (r : Nat) : Appends (freeRegister r) σ () [] := by
  have hactive : exists n, activeRegisters σ = .ok n σ := ⟨_, rfl⟩
  rcases hactive with ⟨n, hactive⟩
  refine (appends_of_ok hactive rfl).after fun σ' _ => ?_
  split
  · exact appends_modifyFn fun _ => rfl
  · exact appends_pure ()

/-- The operands of a test are in registers, which are freed. -/
theorem appends_freeExprs {x y : Expr} {a b : Nat} (hx : x.register? = some a)
    (hy : y.register? = some b) : Appends (freeExprs x y) σ () [] := by
  unfold freeExprs freeRegisters
  rw [hx, hy]
  dsimp only
  split
  · exact (appends_freeRegister a).after fun _ _ => appends_freeRegister b
  · exact (appends_freeRegister b).after fun _ _ => appends_freeRegister a

/-- The value of a register. -/
def inRegister (r : Nat) : Expr := { kind := .fixed r }

theorem appends_toAnyRegister (r : Nat) :
    Appends (toAnyRegister (inRegister r)) σ (inRegister r, r) [] :=
  appends_of_ok rfl rfl

theorem appends_order (strict : Bool) (a b : Nat) :
    Appends (order strict (inRegister a) (inRegister b)) σ
      { kind := .jump ((code σ).length + 1) }
      [.abck (if strict then .lt else .le) a b 0 true, openJump] := by
  refine (appends_toAnyRegister a).after fun σ₁ hcode₁ => ?_
  refine (appends_toAnyRegister b).after fun σ₂ hcode₂ => ?_
  refine (appends_freeExprs rfl rfl).after fun σ₃ hcode₃ => ?_
  have hcode : code σ₃ = code σ := (hcode₃.trans hcode₂).trans hcode₁
  rw [← hcode]
  exact (appends_emitTest _ a b 0 true).bind (l := []) fun _ _ => appends_pure _

theorem appends_equality (positive : Bool) (a b : Nat) :
    Appends (equality positive (inRegister a) (inRegister b)) σ
      { kind := .jump ((code σ).length + 1) } [.abck .eq a b 0 positive, openJump] := by
  have hoperand (σ' : Compilation) : Appends (toOperand (inRegister b)) σ' (inRegister b, b, false) [] :=
    appends_of_ok rfl rfl
  refine (appends_toAnyRegister a).after fun σ₁ hcode₁ => ?_
  refine (hoperand σ₁).after fun σ₂ hcode₂ => ?_
  refine (appends_freeExprs rfl rfl).after fun σ₃ hcode₃ => ?_
  have hcode : code σ₃ = code σ := (hcode₃.trans hcode₂).trans hcode₁
  rw [← hcode]
  exact (appends_emitTest .eq a b 0 positive).bind (l := []) fun _ _ => appends_pure _

/-- The compiler makes a question about two registers, the second of which may be a variable's, a
test and a jump. -/
theorem appends_endBinary (q : Query) (a b : Nat) {y : Expr}
    (hy : y = inRegister b ∨ exists n, y = { kind := .localVar b n }) (line : Nat) :
    Appends (endBinary q.operator (inRegister a) y line) σ { kind := .jump ((code σ).length + 1) }
      [q.test a b, openJump] := by
  have hdischarge : Appends (dischargeVariable y) σ (inRegister b) [] := by
    rcases hy with rfl | ⟨n, rfl⟩ <;> exact appends_of_ok rfl rfl
  refine hdischarge.after fun σ' hcode => ?_
  rw [← hcode]
  cases q with
  | eq => exact appends_equality true a b
  | ne => exact appends_equality false a b
  | lt => exact appends_order true a b
  | le => exact appends_order false a b
  | gt => exact appends_order true b a
  | ge => exact appends_order false b a

end Compile

/-!
# Parts of instructions
-/

namespace Instruction

theorem toNat_or_shiftLeft {w n : UInt32} {v : Nat} (hn : n.toNat < 32) (hw : w.toNat < 2 ^ n.toNat)
    (hv : v * 2 ^ n.toNat < 2 ^ 32) :
    (w ||| (v.toUInt32 <<< n)).toNat = w.toNat + v * 2 ^ n.toNat := by
  have hsmall : v < 2 ^ 32 := Nat.lt_of_le_of_lt (Nat.le_mul_of_pos_right v (Nat.two_pow_pos _)) hv
  rw [UInt32.toNat_or, UInt32.toNat_shiftLeft, Nat.mod_eq_of_lt hn, Nat.toUInt32_eq, UInt32.toNat_ofNat',
    Nat.mod_eq_of_lt hsmall, Nat.shiftLeft_eq, Nat.mod_eq_of_lt hv, Nat.or_comm, Nat.mul_comm,
    ← Nat.two_pow_add_eq_or_of_lt hw, Nat.add_comm]

theorem wordField_eq (w : UInt32) {n : UInt32} (hn : n.toNat < 32) {m : Nat} {mask : UInt32}
    (hmask : mask.toNat = 2 ^ m - 1) : wordField w n mask = w.toNat / 2 ^ n.toNat % 2 ^ m := by
  unfold wordField
  rw [UInt32.toNat_and, UInt32.toNat_shiftRight, Nat.mod_eq_of_lt hn, hmask,
    Nat.and_two_pow_sub_one_eq_mod, Nat.shiftRight_eq_div_pow]

theorem toNat_abck (o : Opcode) {a b c : Nat} (ha : a < 256) (hb : b < 256) (hc : c < 256) (k : Bool) :
    (abck o a b c k).toNat =
      o.code.toNat + a * 2 ^ 7 + k.toNat * 2 ^ 15 + b * 2 ^ 16 + c * 2 ^ 24 := by
  have ho : o.code.toNat < 2 ^ 7 := by cases o <;> decide
  have hflag : (if k then (0x8000 : UInt32) else 0) = k.toNat.toUInt32 <<< 15 := by
    cases k <;> decide
  have hk : k.toNat < 2 := by cases k <;> decide
  have h7 := toNat_or_shiftLeft (w := o.code) (n := 7) (v := a) (by decide) ho
    (by show a * 2 ^ 7 < 2 ^ 32; omega)
  have h15 := toNat_or_shiftLeft (w := o.code ||| a.toUInt32 <<< 7) (n := 15) (v := k.toNat)
    (by decide) (by rw [h7]; show _ + a * 2 ^ 7 < 2 ^ 15; omega)
    (by show k.toNat * 2 ^ 15 < 2 ^ 32; omega)
  have h16 := toNat_or_shiftLeft (n := 16) (v := b) (by decide)
    (w := o.code ||| a.toUInt32 <<< 7 ||| k.toNat.toUInt32 <<< 15)
    (by rw [h15, h7]; show _ + a * 2 ^ 7 + k.toNat * 2 ^ 15 < 2 ^ 16; omega)
    (by show b * 2 ^ 16 < 2 ^ 32; omega)
  have h24 := toNat_or_shiftLeft (n := 24) (v := c) (by decide)
    (w := o.code ||| a.toUInt32 <<< 7 ||| k.toNat.toUInt32 <<< 15 ||| b.toUInt32 <<< 16)
    (by rw [h16, h15, h7]; show _ + a * 2 ^ 7 + k.toNat * 2 ^ 15 + b * 2 ^ 16 < 2 ^ 24; omega)
    (by show c * 2 ^ 24 < 2 ^ 32; omega)
  unfold abck
  rw [hflag, h24, h16, h15, h7]
  rfl

/-- The parts of an instruction are what it was made from. -/
theorem parts_abck (o : Opcode) {a b c : Nat} (ha : a < 256) (hb : b < 256) (hc : c < 256) (k : Bool) :
    (abck o a b c k).opcode = o ∧ (abck o a b c k).a = a ∧ (abck o a b c k).b = b ∧
      (abck o a b c k).k = k := by
  have hword := toNat_abck o ha hb hc k
  have ho : o.code.toNat < 2 ^ 7 := by cases o <;> decide
  have hcode : Opcode.ofCode o.code.toNat = o := by cases o <;> decide
  have hk : k.toNat < 2 := by cases k <;> decide
  refine ⟨?_, ?_, ?_, ?_⟩
  · unfold opcode
    rw [wordField_eq (m := 7) _ (by decide) (by decide), hword]
    refine Eq.trans (congrArg Opcode.ofCode ?_) hcode
    show _ / 2 ^ 0 % 2 ^ 7 = _
    omega
  · unfold Instruction.a
    rw [wordField_eq (m := 8) _ (by decide) (by decide), hword]
    show _ / 2 ^ 7 % 2 ^ 8 = a
    omega
  · unfold Instruction.b
    rw [wordField_eq (m := 8) _ (by decide) (by decide), hword]
    show _ / 2 ^ 16 % 2 ^ 8 = b
    omega
  · unfold Instruction.k
    rw [wordField_eq (m := 1) _ (by decide) (by decide), hword]
    show (_ / 2 ^ 15 % 2 ^ 1 == 1) = k
    rw [show (o.code.toNat + a * 2 ^ 7 + k.toNat * 2 ^ 15 + b * 2 ^ 16 + c * 2 ^ 24) / 2 ^ 15 % 2 ^ 1 =
      k.toNat by omega]
    cases k <;> rfl

end Instruction

/-!
# What is carried out
-/

namespace Machine

/-- The answer to a comparison, which leaves the stack of its caller as it was. -/
def Compared (t : ThreadId) (w : World) (answer : Bool) (b : Bool) (w' : World) : Prop :=
  b = answer ∧ exists th, w' = w.setThread t th ∧ (w.thread t).Unmoved th

namespace Site

/-- The comparison that an instruction makes, and its operands. -/
def question (s : Site) (th : Thread) : Option (Comparison × Value × Value) :=
  let reg (n : Nat) : Value := th.slot (s.base + n)
  match s.i.opcode with
  | .eq => some (.eq, reg s.a, reg s.b)
  | .eqK =>
    match s.p.constant s.b with
    | .userdata _ => none
    | k => some (.eq, reg s.a, k)
  | .eqI => some (.eq, reg s.a, .int (Int64.ofInt s.i.sb))
  | .lt => some (.lt, reg s.a, reg s.b)
  | .le => some (.le, reg s.a, reg s.b)
  | .ltI => some (.lt, reg s.a, s.immediate)
  | .leI => some (.le, reg s.a, s.immediate)
  | .gtI => some (.lt, s.immediate, reg s.a)
  | .geI => some (.le, s.immediate, reg s.a)
  | _ => none

/-- Where the machine goes on behind a test. -/
def landing (s : Site) (jump : Bool) : Nat :=
  if jump then ((s.pc : Int) + 2 + (s.p.instruction (s.pc + 1)).sj).toNat else s.pc + 2

/-- A test is done: the machine goes on where it says, and the registers are as they were. -/
def Goes (s : Site) (t : ThreadId) (w : World) (jump : Bool) (w' : World) : Prop :=
  exists th, w' = w.setThread t th ∧ th.rest = (w.thread t).rest ∧
    th.frames = ((w.thread t).modifyFrame fun f => { f with pc := s.landing jump }).frames ∧
    forall i, i < s.limit -> th.slot i = (w.thread t).slot i

variable {s : Site} {t : ThreadId} {w : World} {x y : Value} {E : Engine}

theorem returns_branch (s : Site) (w : World) (t : ThreadId) (answer : Bool) :
    Returns (s.branch t answer) w () (w.setThread t
      ((w.thread t).modifyFrame fun f => { f with pc := s.landing (answer == s.i.k) })) := by
  unfold branch
  by_cases hanswer : answer = s.i.k
  · rw [if_neg (by rw [hanswer, bne_self_eq_false]; exact Bool.false_ne_true), hanswer,
      beq_self_eq_true]
    exact returns_modifyThread w t _
  · rw [if_pos (bne_iff_ne.mpr hanswer), beq_eq_false_iff_ne.mpr hanswer]
    exact returns_modifyThread w t _

/-- A comparison that may call a handler finds the registers below its stack. -/
theorem ends_test {m : M Bool} {answer : Bool} (hlive : w.liveThread t = true)
    (h : Ends m E (w.setThread t ((w.thread t).withTop s.limit))
      (Compared t (w.setThread t ((w.thread t).withTop s.limit)) answer)
      fun _ => ¬ ((w.thread t).withTop s.limit).Affords 3) :
    Ends (do
      s.raiseTop t
      s.branch t (← m)) E w (fun _ w' => s.Goes t w (answer == s.i.k) w')
      fun _ => ¬ ((w.thread t).withTop s.limit).Affords 3 := by
  have hraise : Returns (s.raiseTop t) w () (w.setThread t ((w.thread t).withTop s.limit)) :=
    returns_modifyThread w t _
  refine Ends.after hraise (Ends.bind h ?_)
  rintro b w' ⟨rfl, th, rfl, hunmoved⟩
  rw [World.thread_setThread hlive] at hunmoved
  have hbranch := returns_branch s ((w.setThread t ((w.thread t).withTop s.limit)).setThread t th) t b
  rw [World.setThread_setThread, World.setThread_setThread, World.thread_setThread hlive] at hbranch
  rw [World.setThread_setThread]
  refine hbranch.ends ⟨_, rfl, hunmoved.rest_eq, ?_, hunmoved.slot_eq⟩
  have hframes : th.frames = (w.thread t).frames := hunmoved.frames_eq
  unfold Thread.modifyFrame
  rw [hframes]

/-- The instruction lets the machine jump if the answer to a question of the script about two values
is `want`.  An equality with a constant may have been turned round. -/
inductive Tests (s : Site) (th : Thread) (q : Query) : Bool → Value → Value → Prop where
  | straight {x y : Value} :
      s.question th = some (if q.exchanged then (q.comparison, y, x) else (q.comparison, x, y)) →
      Tests s th q (q.positive == s.i.k) x y
  | turned {x y : Value} : s.i.opcode = .eqK ∨ s.i.opcode = .eqI → q.comparison = .eq →
      s.question th = some (.eq, y, x) → Tests s th q (q.positive == s.i.k) x y

/-- The next step of a script that tests two values: if it comes to an end, the machine goes on as
the answer says, and it does come to an end where one more call is possible. -/
def Decides (s : Site) (host : Host) (E : Engine) (t : ThreadId) (w : World) (answer want : Bool) :
    Prop :=
  Ends (s.perform host t) E w (fun go w' => go = true ∧ s.Goes t w (answer == want) w')
    fun _ => ¬ ((w.thread t).withTop s.limit).Affords 3

/-- The constant of an equality is no userdata. -/
theorem question_constant {th : Thread} {c : Comparison} (hop : s.i.opcode = .eqK ∨ s.i.opcode = .eqI)
    (h : s.question th = some (c, x, y)) (u : UserDataId) : y ≠ .userdata u := by
  unfold question at h
  rcases hop with hop | hop <;> rw [hop] at h <;> dsimp only at h
  · split at h
    · cases h
    · next hconstant =>
        cases h
        exact hconstant u
  · cases h
    nofun

theorem question_abck {c : Comparison} {a b : Nat} (ha : a < 256) (hb : b < 256) {k : Bool}
    (hi : s.i = .abck c.opcode a b 0 k) (th : Thread) :
    s.question th = some (c, th.slot (s.base + a), th.slot (s.base + b)) ∧ s.i.k = k := by
  rcases Instruction.parts_abck c.opcode ha hb (c := 0) (by decide) k with ⟨hop, ha', hb', hk⟩
  rw [← hi] at hop ha' hb' hk
  refine ⟨?_, hk⟩
  unfold question Site.a Site.b
  rw [hop, ha', hb']
  cases c <;> rfl

/-- What the compiler makes of a question is a test that waits for the answer yes. -/
theorem tests_test (q : Query) {a b : Nat} (ha : a < 256) (hb : b < 256) (hi : s.i = q.test a b)
    (th : Thread) : s.Tests th q true (th.slot (s.base + a)) (th.slot (s.base + b)) := by
  have hyes : q.positive = s.i.k -> (true = (q.positive == s.i.k)) := fun h => by
    rw [h, beq_self_eq_true]
  unfold Query.test at hi
  split at hi
  · next hexchanged =>
      rcases question_abck hb ha hi th with ⟨hquestion, hk⟩
      rw [hyes hk.symm]
      exact .straight (by rw [if_pos hexchanged]; exact hquestion)
  · next hexchanged =>
      rcases question_abck ha hb hi th with ⟨hquestion, hk⟩
      rw [hyes hk.symm]
      exact .straight (by rw [if_neg hexchanged]; exact hquestion)

end Site

end Machine

end LuaHost
