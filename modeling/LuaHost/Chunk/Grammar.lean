import LuaHost.Chunk.Emit

/-!
# The grammar

A recursive-descent reader that generates code as it goes.  Statements and expressions may contain
each other; the depth of that is limited, and the reader is built by recursion on what is left of
it.  Everything else that repeats is bounded by the tokens that are left.
-/

namespace LuaHost.Compile

/-! ## Expecting tokens -/

def isChar (t : Token) (c : Char) : Bool := t == .char (Bytes.code c)

def currentIs (t : Token) : Compile Bool := return (← token) == t

def charToken (c : Char) : Token := .char (Bytes.code c)

def expectedFault {α : Type} (t : Token) : Compile α := fault (t.expected ++ " expected".toUTF8)

/-- Skips a token if it is the given one. -/
def skipToken (t : Token) : Compile Bool := do
  if (← token) == t then
    advance
    return true
  return false

def skipChar (c : Char) : Compile Bool := skipToken (charToken c)

def expect (t : Token) : Compile Unit := do
  if !(← skipToken t) then expectedFault t

def expectChar (c : Char) : Compile Unit := expect (charToken c)

/-- Expects the token that closes another one, opened at a line. -/
def expectClosing (closing opening : Token) (start : Nat) : Compile Unit := do
  if !(← skipToken closing) then
    if start == (← line) then expectedFault closing
    else
      fault (closing.expected ++ " expected (to close ".toUTF8 ++ opening.expected
        ++ (" at line " ++ toString start ++ ")").toUTF8)

def expectName : Compile Bytes := do
  match ← token with
  | .name s =>
    advance
    return s
  | _ => expectedFault (.name ByteArray.empty)

/-- Repeats an action while it answers `true`. -/
def repeatWhile (x : Compile Bool) : Nat → Compile Unit
  | 0 => return ()
  | fuel + 1 => do
    if ← x then repeatWhile x fuel

/-- Whether the current token ends a block. -/
def endsBlock (withUntil : Bool) : Compile Bool := do
  match ← token with
  | .keyword .elseWord | .keyword .elseifWord | .keyword .endWord | .finish => return true
  | .keyword .untilWord => return withUntil
  | _ => return false

/-! ## Variables -/

/-- The most variables that a function may have. -/
def maxVariables : Nat := 200

def maxUpvalues : Nat := 255

/-- Declares a variable; it is not in scope yet. -/
def declare (name : Bytes) : Compile Nat := do
  let s ← get
  let n := s.locals.size - s.function.firstLocal
  if n + 1 > maxVariables then limitFault maxVariables "local variables"
  modify fun s => { s with locals := s.locals.push { name } }
  return n

def declareText (name : String) : Compile Unit := do
  let _ ← declare name.toUTF8

def variable_ (n : Nat) : Compile Variable := do
  let s ← get
  return variableOf s s.function n

def modifyVariable (n : Nat) (f : Variable → Variable) : Compile Unit :=
  modify fun s =>
    { s with locals := s.locals.modify (s.function.firstLocal + n) f }

/-- Starts the scope of the next declared variable, in a register. -/
def activateOne (reg : Nat) : Compile Unit := do
  let f ← fn
  let v ← variable_ f.active
  let place := f.p.locals.size
  modifyVariable f.active fun v => { v with register := reg, place }
  modifyFn fun f =>
    { f with
      active := f.active + 1
      p := { f.p with
        locals := f.p.locals.push { name := v.name, startPc := f.p.code.size, endPc := 0 } } }

/-- Starts the scope of the next `n` declared variables. -/
def activate (n : Nat) : Compile Unit := do
  let level ← activeRegisters
  (List.range n).forM fun i => activateOne (level + i)

/-- Ends the scope of the variables beyond a number. -/
def deactivate (level : Nat) : Compile Unit := do
  let s ← get
  let f := s.function
  let gone := ((List.range (f.active - level)).map fun i => variableOf s f (level + i)).filter
    fun v => v.kind != .known
  let pc := f.p.code.size
  modify fun s =>
    { s with locals := s.locals.take (s.locals.size - (f.active - level)) }
  modifyFn fun f =>
    { f with
      active := level
      p := { f.p with
        locals := gone.foldl
          (fun ls v => ls.modify v.place fun l => { l with endPc := pc }) f.p.locals } }

/-- What a name means inside a function and the functions around it. -/
inductive Resolved where
  | localVar (reg number : Nat) (kind : VariableKind)
  | known (place : Nat)
  | upvalue (i : Nat) (kind : UInt8)
  | unknown

def findLocal (vars : Array Variable) (f : Function) (name : Bytes) : Nat → Option Nat
  | 0 => none
  | n + 1 =>
    if (vars.getD (f.firstLocal + n) default).name == name then some n
    else findLocal vars f name n

/-- Notes that a variable is shared with an inner function, at the block that it belongs to. -/
def markShared (number : Nat) : List Scope → List Scope
  | [] => []
  | b :: bs => if b.active > number then b :: markShared number bs else { b with shared := true } :: bs

def addUpvalue (f : Function) (u : UpvalueInfo) : Except Function (Function × Nat) :=
  let n := f.p.upvalues.size
  if n + 1 > maxUpvalues then .error f
  else .ok ({ f with p := { f.p with upvalues := f.p.upvalues.push u } }, n)

/-- Looks a name up in a list of functions, innermost first; inner ones get upvalues for variables
of outer ones.  An error is the function that has too many of them. -/
def resolve (vars : Array Variable) (name : Bytes) (innermost : Bool) :
    List Function → Except Function (Resolved × List Function)
  | [] => .ok (.unknown, [])
  | f :: fs =>
    match findLocal vars f name f.active with
    | some n =>
      let v := vars.getD (f.firstLocal + n) default
      if v.kind == .known then .ok (.known (f.firstLocal + n), f :: fs)
      else
        let f := if innermost then f
          else { f with scopes := markShared n f.scopes, needsClose := true }
        .ok (.localVar v.register n v.kind, f :: fs)
    | none =>
      match f.p.upvalues.findIdx? (·.name == some name) with
      | some i => .ok (.upvalue i (f.p.upvalues.getD i default).kind, f :: fs)
      | none => do
        let (r, fs) ← resolve vars name false fs
        match r with
        | .localVar reg _ kind =>
          let (f, i) ← addUpvalue f
            { name := some name, inStack := true, index := reg, kind := kind.code }
          return (.upvalue i kind.code, f :: fs)
        | .upvalue j kind =>
          let (f, i) ← addUpvalue f { name := some name, inStack := false, index := j, kind }
          return (.upvalue i kind, f :: fs)
        | r => return (r, f :: fs)

def resolveName (name : Bytes) : Compile Resolved := do
  let s ← get
  match resolve s.locals name true (s.function :: s.outer) with
  | .ok (r, f :: outer) =>
    set { s with function := f, outer }
    return r
  | .ok (r, []) => return r
  | .error f =>
    set { s with function := f }
    limitFault maxUpvalues "upvalues"

def Resolved.expr? : Resolved → Option Expr
  | .localVar r n _ => some { kind := .localVar r n }
  | .known i => some { kind := .known i }
  | .upvalue i _ => some { kind := .upvalue i }
  | .unknown => none

/-- The name of the variable that holds the globals. -/
def environmentName : Bytes := "_ENV".toUTF8

/-- A variable: local, upvalue, constant, or a field of the environment. -/
def singleVariable : Compile Expr := do
  let name ← expectName
  match (← resolveName name).expr? with
  | some e => return e
  | none =>
    let env := (← resolveName environmentName).expr?.getD { kind := .void }
    let env ← toRegisterOrUpvalue env
    indexedBy env { kind := .str name }

/-- Refuses assignments to variables that are constant. -/
def checkAssignable (e : Expr) : Compile Unit := do
  let name ← match e.kind with
    | .known i => do pure (some ((← get).locals.getD i default).name)
    | .localVar _ n => do
      let v ← variable_ n
      pure (if v.kind != .regular then some v.name else none)
    | .upvalue i => do
      let u := (← fn).p.upvalues.getD i default
      pure (if u.kind != VariableKind.regular.code then u.name else none)
    | _ => pure none
  match name with
  | some n => meaningFault ("attempt to assign to const variable '".toUTF8 ++ n ++ "'".toUTF8)
  | none => return ()

/-- Makes the values of an expression list fit a number of variables. -/
def adjustAssignment (wanted given : Nat) (e : Expr) : Compile Unit := do
  let needed : Int := (wanted : Int) - given
  if e.isOpen then setResults e (max (needed + 1) 0)
  else
    if !e.isVoid then
      let _ ← toNextRegister e
    if needed > 0 then loadNils (← fn).freeRegister needed.toNat
  if needed > 0 then reserve needed.toNat
  else modifyFn fun f => { f with freeRegister := f.freeRegister - (-needed).toNat }

/-! ## Labels and jumps to them -/

def breakName : Bytes := "break".toUTF8

def newLabel (name : Bytes) (line : Nat) (pc : JumpList) : Compile Label :=
  return { name, line, pc, active := (← fn).active }

/-- Notes a jump whose label is not known yet. -/
def newGoto (name : Bytes) (line : Nat) (pc : JumpList) : Compile Unit := do
  let g ← newLabel name line pc
  modify fun s => { s with gotos := s.gotos.push g }

/-- Directs a pending jump to its label; it must not enter the scope of a variable. -/
def solveGoto (g l : Label) : Compile Unit := do
  if g.active < l.active then
    let v ← variable_ g.active
    meaningFault ("<goto ".toUTF8 ++ g.name ++ ("> at line " ++ toString g.line
      ++ " jumps into the scope of local '").toUTF8 ++ v.name ++ "'".toUTF8)
  patchList g.pc l.pc.toNat

/-- Directs the pending jumps of the current block that want a label; whether one of them leaves the
scope of a shared variable. -/
def solveGotos (l : Label) : Compile Bool := do
  let s ← get
  let first := (s.function.scopes.head?.map (·.firstGoto)).getD 0
  let before := s.gotos.take first
  let pending := s.gotos.drop first
  let wanted := pending.filter fun (g : Label) => g.name == l.name
  set { s with gotos := before ++ pending.filter fun (g : Label) => g.name != l.name }
  wanted.forM fun g => solveGoto g l
  return wanted.any (·.close)

/-- Creates a label here; `last` tells that only empty statements follow it in its block.  The
answer is whether variables had to be closed. -/
def createLabel (name : Bytes) (line : Nat) (last : Bool) : Compile Bool := do
  let l ← newLabel name line (← label)
  let outside := ((← fn).scopes.head?.map (·.active)).getD 0
  let l := if last then { l with active := outside } else l
  modify fun s => { s with labels := s.labels.push l }
  if ← solveGotos l then
    let _ ← emitABC .close (← activeRegisters) 0 0
    return true
  return false

def findLabel (name : Bytes) : Compile (Option Label) := do
  let s ← get
  return (s.labels.drop s.function.firstLabel).find? (·.name == name)

/-! ## Blocks -/

def enterScope (isLoop : Bool) : Compile Unit := do
  let s ← get
  modifyFn fun f =>
    let b : Scope :=
      { firstLabel := s.labels.size
        firstGoto := s.gotos.size
        active := f.active
        isLoop
        insideToClose := (f.scopes.head?.map (·.insideToClose)).getD false }
    { f with scopes := b :: f.scopes }

def undefinedGoto {α : Type} (g : Label) : Compile α := do
  if g.name == breakName then
    meaningFault ("break outside loop at line " ++ toString g.line).toUTF8
  else
    meaningFault ("no visible label '".toUTF8 ++ g.name
      ++ ("' for <goto> at line " ++ toString g.line).toUTF8)

/-- Moves pending jumps out of a block. -/
def moveGotosOut (vars : Array Variable) (b : Scope) : Compile Unit := do
  let f ← fn
  let outside := levelIn vars f b.active
  modify fun s =>
    { s with
      gotos := s.gotos.mapIdx fun i g =>
        if i < b.firstGoto then g
        else
          { g with
            close := g.close || (levelIn vars f g.active > outside && b.shared)
            active := b.active } }

def leaveScope : Compile Scope := do
  let s ← get
  let vars := s.locals
  match s.function.scopes with
  | [] => return default
  | b :: rest =>
    let level ← registerLevel b.active
    deactivate b.active
    let closed ← if b.isLoop then createLabel breakName 0 false else pure false
    if !closed && !rest.isEmpty && b.shared then
      let _ ← emitABC .close level 0 0
    modifyFn fun f => { f with freeRegister := level, scopes := rest }
    modify fun s => { s with labels := s.labels.take b.firstLabel }
    if !rest.isEmpty then moveGotosOut vars b
    else
      match (← get).gotos[b.firstGoto]? with
      | some g => undefinedGoto g
      | none => pure ()
    return b

/-- Notes that the current block has a variable to be closed. -/
def markToBeClosed : Compile Unit :=
  modifyFn fun f =>
    { f with
      needsClose := true
      scopes := match f.scopes with
        | b :: bs => { b with shared := true, insideToClose := true } :: bs
        | [] => [] }

/-! ## Functions -/

/-- Begins a function inside the current one. -/
def openFunction (line : Nat) : Compile Unit := do
  modify fun s =>
    { s with
      outer := s.function :: s.outer
      function :=
        { p := { lineDefined := line, source := some s.source }
          previousLine := line
          firstLocal := s.locals.size
          firstLabel := s.labels.size } }
  enterScope false

/-- Ends the current function: its code is complete. -/
def closeFunction : Compile Prototype := do
  emitReturn (← activeRegisters) 0
  let _ ← leaveScope
  finishCode
  let s ← get
  let p := s.function.p
  match s.outer with
  | f :: outer => set { s with function := f, outer }
  | [] => pure ()
  return p

def declareVararg (parameters : Nat) : Compile Unit := do
  modifyProto fun p => { p with isVararg := true }
  let _ ← emitABC .varargPrep parameters 0 0

/-- The parameters of a function. -/
def parameters : Compile Unit := do
  let variadic ← if ← currentIs (charToken ')') then pure false else parameterList (← tokensLeft)
  let s ← get
  activate (s.locals.size - s.function.firstLocal - s.function.active)
  let n := (← fn).active
  modifyProto fun p => { p with parameters := n }
  if variadic then declareVararg n
  reserve n
where
  parameterList : Nat → Compile Bool
    | 0 => return false
    | fuel + 1 => do
      match ← token with
      | .name s =>
        advance
        let _ ← declare s
        if ← skipChar ',' then parameterList fuel else return false
      | .symbol .dots =>
        advance
        return true
      | _ => faultText "<name> or '...' expected"

/-! ## Expressions -/

/-- What contains itself: a statement, an expression whose operators bind more tightly than a limit,
and the targets of an assignment. -/
structure Nested where
  statement : Compile Unit
  expression : (limit : Nat) → Compile (Expr × Option BinaryOp)
  assignment : (targets : List Expr) → Compile Unit

def Nested.expr (r : Nested) : Compile Expr := return (← r.expression 0).1

/-- A list of expressions, all but the last one in registers; the last one, and their number. -/
def expressionList (r : Nested) : Compile (Expr × Nat) := do
  let e ← r.expr
  rest e 1 (← tokensLeft)
where
  rest (e : Expr) (n : Nat) : Nat → Compile (Expr × Nat)
    | 0 => return (e, n)
    | fuel + 1 => do
      if ← skipChar ',' then
        let _ ← toNextRegister e
        let e ← r.expr
        rest e (n + 1) fuel
      else return (e, n)

/-- Statements up to the end of a block. -/
def statements (r : Nested) : Compile Unit := do
  repeatWhile
    (do
      if ← endsBlock true then return false
      let isReturn ← currentIs (.keyword .returnWord)
      r.statement
      return !isReturn)
    (← tokensLeft)

def block (r : Nested) : Compile Unit := do
  enterScope false
  statements r
  let _ ← leaveScope

/-- A function from its parameters to its `end`. -/
def functionBody (r : Nested) (isMethod : Bool) (start : Nat) : Compile Expr := do
  openFunction start
  expectChar '('
  if isMethod then
    declareText "self"
    activate 1
  parameters
  expectChar ')'
  statements r
  let last ← line
  modifyProto fun p => { p with lastLineDefined := last }
  expectClosing (.keyword .endWord) (.keyword .functionWord) start
  let p ← closeFunction
  let n := (← fn).p.nested.size
  modifyProto fun q => { q with nested := q.nested.push p }
  let e : Expr := { kind := .open (← emitABx .closure 0 n) }
  toNextRegister e

/-- `.name` or `:name` behind an expression. -/
def fieldSelection (e : Expr) : Compile Expr := do
  let e ← toRegisterOrUpvalue e
  advance
  indexedBy e { kind := .str (← expectName) }

/-- `[key]`. -/
def bracketKey (r : Nested) : Compile Expr := do
  advance
  let e ← r.expr
  let e ← toValue e
  expectChar ']'
  return e

/-! ### Table constructors -/

/-- How far a table constructor has come. -/
structure Constructing where
  /-- The last list item, not stored yet. -/
  item : Expr := { kind := .void }
  /-- Entries with a key. -/
  records : Nat := 0
  /-- Items stored. -/
  stored : Nat := 0
  /-- Items in registers. -/
  pending : Nat := 0

/-- How many items are stored at once. -/
def itemsAtOnce : Nat := 50

def recordField (r : Nested) (reg : Nat) (c : Constructing) : Compile Constructing := do
  let free := (← fn).freeRegister
  let key ← match ← token with
    | .name s => do
      advance
      pure ({ kind := .str s } : Expr)
    | _ => bracketKey r
  expectChar '='
  let target ← indexedBy { kind := .fixed reg } key
  let v ← r.expr
  storeVariable target v
  modifyFn fun f => { f with freeRegister := free }
  return { c with records := c.records + 1 }

def closeItem (reg : Nat) (c : Constructing) : Compile Constructing := do
  if c.item.isVoid then return c
  let _ ← toNextRegister c.item
  let c := { c with item := { kind := .void } }
  if c.pending == itemsAtOnce then
    emitSetList reg c.stored c.pending
    return { c with stored := c.stored + c.pending, pending := 0 }
  return c

def listField (r : Nested) (c : Constructing) : Compile Constructing := do
  return { c with item := ← r.expr, pending := c.pending + 1 }

def constructorField (r : Nested) (reg : Nat) (c : Constructing) : Compile Constructing := do
  match ← token with
  | .name _ => if isChar (← lookAhead) '=' then recordField r reg c else listField r c
  | t => if isChar t '[' then recordField r reg c else listField r c

def skipSeparator : Compile Bool := do
  if ← skipChar ',' then return true
  skipChar ';'

def constructorFields (r : Nested) (reg : Nat) (c : Constructing) : Nat → Compile Constructing
  | 0 => return c
  | fuel + 1 => do
    if ← currentIs (charToken '}') then return c
    let c ← closeItem reg c
    let c ← constructorField r reg c
    if ← skipSeparator then constructorFields r reg c fuel else return c

/-- Stores the last items; the number of items that is known. -/
def closeItems (reg : Nat) (c : Constructing) : Compile Nat := do
  if c.pending == 0 then return c.stored
  if c.item.isOpen then
    setResults c.item multipleResults
    emitSetList reg c.stored 0
    return c.stored + c.pending - 1
  if !c.item.isVoid then
    let _ ← toNextRegister c.item
  emitSetList reg c.stored c.pending
  return c.stored + c.pending

def tableConstructor (r : Nested) : Compile Expr := do
  let start ← line
  let pc ← emitABC .newTable 0 0 0
  let _ ← emit 0
  let reg := (← fn).freeRegister
  reserve 1
  expectChar '{'
  let c ← constructorFields r reg {} (← tokensLeft)
  expectClosing (charToken '}') (charToken '{') start
  let items ← closeItems reg c
  setTableSize pc reg items c.records
  return { kind := .fixed reg }

/-! ### Calls and other suffixes -/

def callArguments (r : Nested) (start : Nat) : Compile Expr := do
  match ← token with
  | .str s =>
    advance
    return { kind := .str s }
  | t =>
    if isChar t '(' then
      advance
      let args ← if ← currentIs (charToken ')') then pure { kind := .void } else do
        let (e, _) ← expressionList r
        if e.isOpen then setResults e multipleResults
        pure e
      expectClosing (charToken ')') (charToken '(') start
      return args
    else if isChar t '{' then tableConstructor r
    else faultText "function arguments expected"

/-- The arguments of a call, and the call of the function in a register. -/
def callWithArguments (r : Nested) (f : Expr) : Compile Expr := do
  let start ← line
  let args ← callArguments r start
  let base := f.register?.getD 0
  let count : Int ← if args.isOpen then pure multipleResults else do
    if !args.isVoid then
      let _ ← toNextRegister args
    pure (((← fn).freeRegister : Int) - (base + 1))
  let pc ← emitABC .call base (count + 1).toNat 2
  fixLine start
  modifyFn fun f => { f with freeRegister := base + 1 }
  return { kind := .call pc }

def primaryExpression (r : Nested) : Compile Expr := do
  match ← token with
  | .name _ => singleVariable
  | t =>
    if isChar t '(' then
      let start ← line
      advance
      let e ← r.expr
      expectClosing (charToken ')') (charToken '(') start
      dischargeVariable e
    else faultText "unexpected symbol"

def suffixes (r : Nested) (e : Expr) : Nat → Compile Expr
  | 0 => return e
  | fuel + 1 => do
    match ← token with
    | .str _ => suffixes r (← callWithArguments r (← toNextRegister e)) fuel
    | t =>
      if isChar t '.' then suffixes r (← fieldSelection e) fuel
      else if isChar t '[' then
        let e ← toRegisterOrUpvalue e
        let key ← bracketKey r
        suffixes r (← indexedBy e key) fuel
      else if isChar t ':' then
        advance
        let key : Expr := { kind := .str (← expectName) }
        let e ← selfCall e key
        suffixes r (← callWithArguments r e) fuel
      else if isChar t '(' || isChar t '{' then
        suffixes r (← callWithArguments r (← toNextRegister e)) fuel
      else return e

/-- A primary expression with selections and calls behind it. -/
def suffixedExpression (r : Nested) : Compile Expr := do
  let e ← primaryExpression r
  suffixes r e (← tokensLeft)

def simpleExpression (r : Nested) : Compile Expr := do
  let single (k : ExprKind) : Compile Expr := do
    advance
    return { kind := k }
  match ← token with
  | .number (.float x) => single (.float x)
  | .number (.int i) => single (.int i)
  | .str s => single (.str s)
  | .keyword .nilWord => single .nil
  | .keyword .trueWord => single .true
  | .keyword .falseWord => single .false
  | .symbol .dots =>
    if !(← fn).p.isVararg then faultText "cannot use '...' outside a vararg function"
    single (.vararg (← emitABC .vararg 0 0 1))
  | .keyword .functionWord =>
    advance
    functionBody r false (← line)
  | t => if isChar t '{' then tableConstructor r else suffixedExpression r

/-! ### Operators -/

def unaryOf : Token → Option UnaryOp
  | .keyword .notWord => some .not
  | .char 45 => some .minus
  | .char 126 => some .bnot
  | .char 35 => some .len
  | _ => none

def binaryOf : Token → Option BinaryOp
  | .char 43 => some (.arith .add)
  | .char 45 => some (.arith .sub)
  | .char 42 => some (.arith .mul)
  | .char 37 => some (.arith .mod)
  | .char 94 => some (.arith .pow)
  | .char 47 => some (.arith .div)
  | .symbol .floorDiv => some (.arith .idiv)
  | .char 38 => some (.arith .band)
  | .char 124 => some (.arith .bor)
  | .char 126 => some (.arith .bxor)
  | .symbol .shl => some (.arith .shl)
  | .symbol .shr => some (.arith .shr)
  | .symbol .concat => some .concat
  | .symbol .ne => some .ne
  | .symbol .eq => some .eq
  | .char 60 => some .lt
  | .symbol .le => some .le
  | .char 62 => some .gt
  | .symbol .ge => some .ge
  | .keyword .andWord => some .and
  | .keyword .orWord => some .or
  | _ => none

/-- How tightly an operator binds to its left and to its right. -/
def BinaryOp.priority : BinaryOp → Nat × Nat
  | .arith .add | .arith .sub => (10, 10)
  | .arith .mul | .arith .mod | .arith .div | .arith .idiv => (11, 11)
  | .arith .pow => (14, 13)
  | .arith .band => (6, 6)
  | .arith .bor => (4, 4)
  | .arith .bxor => (5, 5)
  | .arith _ => (7, 7)
  | .concat => (9, 8)
  | .eq | .lt | .le | .ne | .gt | .ge => (3, 3)
  | .and => (2, 2)
  | .or => (1, 1)

def unaryPriority : Nat := 12

/-- Applies the operators that bind more tightly than a limit. -/
def operators (r : Nested) (limit : Nat) (e : Expr) (op? : Option BinaryOp) :
    Nat → Compile (Expr × Option BinaryOp)
  | 0 => return (e, op?)
  | fuel + 1 => do
    match op? with
    | none => return (e, none)
    | some op =>
      if op.priority.1 ≤ limit then return (e, some op)
      let start ← line
      advance
      let e ← beginBinary op e
      let (e₂, next) ← r.expression op.priority.2
      let e ← endBinary op e e₂ start
      operators r limit e next fuel

def subExpression (r : Nested) (limit : Nat) : Compile (Expr × Option BinaryOp) := do
  let e ← match unaryOf (← token) with
    | some op => do
      let start ← line
      advance
      let (e, _) ← r.expression unaryPriority
      unaryOperator op e start
    | none => simpleExpression r
  operators r limit e (binaryOf (← token)) (← tokensLeft)

/-! ## Statements -/

/-- Guards earlier targets of an assignment against a variable that is a later one: they use a copy
of it. -/
def avoidConflict (extra : Nat) (v : Expr) (t : Expr) : Expr × Bool :=
  match t.kind, v.kind with
  | .indexedUpvalue u k, .upvalue i =>
    if u == i then ({ t with kind := .indexedStr extra k }, true) else (t, false)
  | .indexedInt r i, .localVar s _ =>
    if r == s then ({ t with kind := .indexedInt extra i }, true) else (t, false)
  | .indexedStr r k, .localVar s _ =>
    if r == s then ({ t with kind := .indexedStr extra k }, true) else (t, false)
  | .indexed r k, .localVar s _ =>
    let r' := if r == s then extra else r
    let k' := if k == s then extra else k
    ({ t with kind := .indexed r' k' }, r == s || k == s)
  | _, _ => (t, false)

/-- The targets of an assignment from the second on, then its values; `targets` has the last target
first. -/
def assignmentRest (r : Nested) (targets : List Expr) : Compile Unit := do
  let t := targets.headD default
  if !t.isVariable then faultText "syntax error"
  checkAssignable t
  if ← skipChar ',' then
    let v ← suffixedExpression r
    let targets ← if v.isIndexed then pure targets else do
      let extra := (← fn).freeRegister
      let guarded := targets.map (avoidConflict extra v)
      if guarded.any (·.2) then
        match v.kind with
        | .localVar reg _ =>
          let _ ← emitABC .move extra reg 0
        | .upvalue i =>
          let _ ← emitABC .getUpval extra i 0
        | _ => pure ()
        reserve 1
      pure (guarded.map (·.1))
    r.assignment (v :: targets)
  else
    expectChar '='
    let (e, n) ← expressionList r
    let left ← if n == targets.length then do
        let e ← setOneResult e
        storeVariable t e
        pure (targets.drop 1)
      else do
        adjustAssignment targets.length n e
        pure targets
    left.forM fun t => do
      storeVariable t { kind := .fixed ((← fn).freeRegister - 1) }

/-- A condition: the jumps taken when it is false. -/
def condition (r : Nested) : Compile JumpList := do
  let e ← r.expr
  let e := match e.kind with
    | .nil => { e with kind := .false }
    | _ => e
  return (← goIfTrue e).whenFalse

def gotoStatement : Compile Unit := do
  let start ← line
  let name ← expectName
  match ← findLabel name with
  | none => newGoto name start (← emitJump)
  | some l =>
    let level ← registerLevel l.active
    if (← activeRegisters) > level then
      let _ ← emitABC .close level 0 0
    patchList (← emitJump) l.pc.toNat

def breakStatement : Compile Unit := do
  let start ← line
  advance
  newGoto breakName start (← emitJump)

def labelStatement (r : Nested) (name : Bytes) (start : Nat) : Compile Unit := do
  expect (.symbol .doubleColon)
  repeatWhile
    (do
      let t ← token
      if isChar t ';' || t == .symbol .doubleColon then
        r.statement
        return true
      return false)
    (← tokensLeft)
  match ← findLabel name with
  | some l =>
    meaningFault ("label '".toUTF8 ++ name
      ++ ("' already defined on line " ++ toString l.line).toUTF8)
  | none =>
    let _ ← createLabel name start (← endsBlock false)

def whileStatement (r : Nested) (start : Nat) : Compile Unit := do
  advance
  let first ← label
  let leave ← condition r
  enterScope true
  expect (.keyword .doWord)
  block r
  patchList (← emitJump) first
  expectClosing (.keyword .endWord) (.keyword .whileWord) start
  let _ ← leaveScope
  patchToHere leave

def repeatStatement (r : Nested) (start : Nat) : Compile Unit := do
  let first ← label
  enterScope true
  enterScope false
  advance
  statements r
  expectClosing (.keyword .untilWord) (.keyword .repeatWord) start
  let again ← condition r
  let b ← leaveScope
  let again ← if b.shared then do
      let leave ← emitJump
      patchToHere again
      let _ ← emitABC .close (← registerLevel b.active) 0 0
      let again ← emitJump
      patchToHere leave
      pure (again : JumpList)
    else pure again
  patchList again first
  let _ ← leaveScope

def singleExpression (r : Nested) : Compile Unit := do
  let _ ← toNextRegister (← r.expr)

def fixLoopJump (pc dest : Nat) (back : Bool) : Compile Unit := do
  let d : Int := (dest : Int) - (pc + 1)
  let d := if back then -d else d
  if d > Instruction.maxBx then faultText "control structure too long"
  modifyInstruction pc (·.setBx d.toNat)

/-- The body of a loop, and its instructions. -/
def loopBody (r : Nested) (base start vars : Nat) (generic : Bool) : Compile Unit := do
  expect (.keyword .doWord)
  let prepare ← emitABx (if generic then .tforPrep else .forPrep) base 0
  enterScope false
  activate vars
  reserve vars
  block r
  let _ ← leaveScope
  fixLoopJump prepare (← label) false
  if generic then
    let _ ← emitABC .tforCall base 0 vars
    fixLine start
  let pc ← emitABx (if generic then .tforLoop else .forLoop) base 0
  fixLoopJump pc (prepare + 1) true
  fixLine start

def numericLoop (r : Nested) (name : Bytes) (start : Nat) : Compile Unit := do
  let base := (← fn).freeRegister
  declareText "(for state)"
  declareText "(for state)"
  declareText "(for state)"
  let _ ← declare name
  expectChar '='
  singleExpression r
  expectChar ','
  singleExpression r
  if ← skipChar ',' then singleExpression r
  else
    loadInt (← fn).freeRegister 1
    reserve 1
  activate 3
  loopBody r base start 1 false

def genericLoop (r : Nested) (name : Bytes) : Compile Unit := do
  let base := (← fn).freeRegister
  declareText "(for state)"
  declareText "(for state)"
  declareText "(for state)"
  declareText "(for state)"
  let _ ← declare name
  repeatWhile
    (do
      if ← skipChar ',' then
        let _ ← declare (← expectName)
        return true
      return false)
    (← tokensLeft)
  let s ← get
  let vars := s.locals.size - s.function.firstLocal - s.function.active - 4
  expect (.keyword .inWord)
  let start ← line
  let (e, n) ← expressionList r
  adjustAssignment 4 n e
  activate 4
  markToBeClosed
  checkRegisters 3
  loopBody r base start vars true

def forStatement (r : Nested) (start : Nat) : Compile Unit := do
  enterScope true
  advance
  let name ← expectName
  let t ← token
  if isChar t '=' then numericLoop r name start
  else if isChar t ',' || t == .keyword .inWord then genericLoop r name
  else faultText "'=' or 'in' expected"
  expectClosing (.keyword .endWord) (.keyword .forWord) start
  let _ ← leaveScope

/-- `if` or `elseif` with its condition and block; `escape` collects the jumps to the end. -/
def thenBlock (r : Nested) (escape : JumpList) : Compile JumpList := do
  advance
  let e ← r.expr
  expect (.keyword .thenWord)
  let finish (skip : JumpList) : Compile JumpList := do
    statements r
    let _ ← leaveScope
    let t ← token
    let escape ← if t == .keyword .elseWord || t == .keyword .elseifWord then do
        joinJumps escape (← emitJump)
      else pure escape
    patchToHere skip
    return escape
  if ← currentIs (.keyword .breakWord) then
    let start ← line
    let e ← goIfFalse e
    advance
    enterScope false
    newGoto breakName start e.whenTrue
    repeatWhile (skipChar ';') (← tokensLeft)
    if ← endsBlock false then
      let _ ← leaveScope
      return escape
    else finish (← emitJump)
  else
    let e ← goIfTrue e
    enterScope false
    finish e.whenFalse

def elseifBlocks (r : Nested) (escape : JumpList) : Nat → Compile JumpList
  | 0 => return escape
  | fuel + 1 => do
    if ← currentIs (.keyword .elseifWord) then
      let escape ← thenBlock r escape
      elseifBlocks r escape fuel
    else return escape

def ifStatement (r : Nested) (start : Nat) : Compile Unit := do
  let escape ← thenBlock r noJump
  let escape ← elseifBlocks r escape (← tokensLeft)
  if ← skipToken (.keyword .elseWord) then block r
  expectClosing (.keyword .endWord) (.keyword .ifWord) start
  patchToHere escape

def localFunction (r : Nested) : Compile Unit := do
  let number := (← fn).active
  let _ ← declare (← expectName)
  activate 1
  let _ ← functionBody r false (← line)
  let v ← variable_ number
  let pc ← here
  modifyProto fun p =>
    { p with locals := p.locals.modify v.place fun l => { l with startPc := pc } }

def variableAttribute : Compile VariableKind := do
  if ← skipChar '<' then
    let name ← expectName
    expectChar '>'
    if name == "const".toUTF8 then return .constant
    else if name == "close".toUTF8 then return .toClose
    else meaningFault ("unknown attribute '".toUTF8 ++ name ++ "'".toUTF8)
  else return .regular

/-- The names of a `local` statement: the number of the last one, how many there are, and which one
is to be closed. -/
def localNames (n : Nat) (toClose : Option Nat) : Nat → Compile (Nat × Nat × Option Nat)
  | 0 => return (0, n, toClose)
  | fuel + 1 => do
    let number ← declare (← expectName)
    let kind ← variableAttribute
    modifyVariable number fun v => { v with kind }
    let toClose ← if kind == .toClose then do
        if toClose.isSome then
          meaningFault "multiple to-be-closed variables in local list".toUTF8
        pure (some ((← fn).active + n))
      else pure toClose
    if ← skipChar ',' then localNames (n + 1) toClose fuel
    else return (number, n + 1, toClose)

def localStatement (r : Nested) : Compile Unit := do
  let (last, vars, toClose) ← localNames 0 none (← tokensLeft)
  let (e, given) ← if ← skipChar '=' then expressionList r else pure ({ kind := .void }, 0)
  let v ← variable_ last
  let value ← if vars == given && v.kind == .constant then knownValue e else pure none
  match value with
  | some value =>
    modifyVariable last fun v => { v with kind := .known, value }
    activate (vars - 1)
    modifyFn fun f => { f with active := f.active + 1 }
  | none =>
    adjustAssignment vars given e
    activate vars
  match toClose with
  | some n =>
    markToBeClosed
    let _ ← emitABC .tbc (← registerLevel n) 0 0
  | none => return ()

/-- The name in a `function` statement; whether it is a method. -/
def functionName : Compile (Expr × Bool) := do
  let e ← singleVariable
  let e ← fields e (← tokensLeft)
  if ← currentIs (charToken ':') then return (← fieldSelection e, true) else return (e, false)
where
  fields (e : Expr) : Nat → Compile Expr
    | 0 => return e
    | fuel + 1 => do
      if ← currentIs (charToken '.') then
        let e ← fieldSelection e
        fields e fuel
      else return e

def functionStatement (r : Nested) (start : Nat) : Compile Unit := do
  advance
  let (v, isMethod) ← functionName
  let b ← functionBody r isMethod start
  checkAssignable v
  storeVariable v b
  fixLine start

def expressionStatement (r : Nested) : Compile Unit := do
  let e ← suffixedExpression r
  let t ← token
  if isChar t '=' || isChar t ',' then assignmentRest r [e]
  else
    match e.kind with
    | .call pc => modifyInstruction pc (·.setC 1)
    | _ => faultText "syntax error"

def returnStatement (r : Nested) : Compile Unit := do
  let first ← activeRegisters
  let (first, n) ← if (← endsBlock true) || (← currentIs (charToken ';')) then
      pure (first, (0 : Int))
    else do
      let (e, n) ← expressionList r
      if e.isOpen then
        setResults e multipleResults
        match e.kind with
        | .call pc =>
          let inside := ((← fn).scopes.head?.map (·.insideToClose)).getD false
          if n == 1 && !inside then modifyInstruction pc (·.setOpcode .tailCall)
        | _ => pure ()
        pure (first, multipleResults)
      else if n == 1 then do
        let (_, reg) ← toAnyRegister e
        pure (reg, 1)
      else do
        let _ ← toNextRegister e
        pure (first, (n : Int))
  emitReturn first n
  let _ ← skipChar ';'

def statementAt (r : Nested) (start : Nat) : Compile Unit := do
  match ← token with
  | .keyword .ifWord => ifStatement r start
  | .keyword .whileWord => whileStatement r start
  | .keyword .doWord =>
    advance
    block r
    expectClosing (.keyword .endWord) (.keyword .doWord) start
  | .keyword .forWord => forStatement r start
  | .keyword .repeatWord => repeatStatement r start
  | .keyword .functionWord => functionStatement r start
  | .keyword .localWord =>
    advance
    if ← skipToken (.keyword .functionWord) then localFunction r else localStatement r
  | .symbol .doubleColon =>
    advance
    let name ← expectName
    labelStatement r name start
  | .keyword .returnWord =>
    advance
    returnStatement r
  | .keyword .breakWord => breakStatement
  | .keyword .gotoWord =>
    advance
    gotoStatement
  | t => if isChar t ';' then advance else expressionStatement r

def statement (r : Nested) : Compile Unit := do
  statementAt r (← line)
  let n ← activeRegisters
  modifyFn fun f => { f with freeRegister := n }

/-! ## Chunks -/

/-- The reader with some depth left. -/
def nested : Nat → Nested
  | 0 =>
    { statement := throw .tooDeep
      expression := fun _ => throw .tooDeep
      assignment := fun _ => throw .tooDeep }
  | depth + 1 =>
    let r := nested depth
    { statement := statement r
      expression := subExpression r
      assignment := assignmentRest r }

/-- A whole chunk: a variadic function whose only upvalue is the environment. -/
def chunk (depth : Nat) : Compile Prototype := do
  enterScope false
  declareVararg 0
  modifyProto fun p =>
    { p with
      upvalues := #[{ name := some environmentName, inStack := true, index := 0, kind := 0 }] }
  advance
  statements (nested depth)
  if !(← currentIs .finish) then expectedFault .finish
  closeFunction

end LuaHost.Compile

namespace LuaHost

/-- Compiles a text; `depth` is how deeply it may nest. -/
def compileText (text source : Bytes) (depth : Nat) : Except ChunkFault Prototype :=
  let start : Compilation :=
    { scanner := { text }, source, function := { p := { source := some source } } }
  match (Compile.chunk depth).run start with
  | .ok p _ => .ok p
  | .error e _ => .error e

end LuaHost
