import LuaHost.Chunk.Token
import LuaHost.Text.CodePoint

/-!
# Reading tokens

The text of a chunk is read token by token.  The reader keeps the line that it has reached, and a
buffer with what it has read for the current token, which messages show.
-/

namespace LuaHost

/-- Why a chunk cannot be compiled. -/
inductive ChunkFault where
  /-- The text is wrong at a line; `near` is the token to show. -/
  | malformed (line : Nat) (what : Bytes) (near : Option Bytes)
  /-- The text nests too deeply. -/
  | tooDeep
deriving Inhabited

structure Scanner where
  text : Bytes
  position : Nat := 0
  line : Nat := 1
  buffer : Bytes := ByteArray.empty
deriving Inhabited

abbrev Scan := EStateM ChunkFault Scanner

namespace Scan

/-! ## Characters -/

/-- The current character; `none` at the end. -/
@[inline] def current : Scan (Option UInt8) := return (← get).text.byte? (← get).position

@[inline] def advance : Scan Unit := modify fun s => { s with position := s.position + 1 }

@[inline] def save (c : UInt8) : Scan Unit := modify fun s => { s with buffer := s.buffer.push c }

/-- Keeps the current character in the buffer and goes on. -/
@[inline] def saveAndAdvance : Scan Unit :=
  modify fun s =>
    { s with buffer := s.buffer.push (s.text.byteAt s.position), position := s.position + 1 }

/-- Takes back the last `n` bytes of the buffer. -/
def unsave (n : Nat) : Scan Unit :=
  modify fun s => { s with buffer := s.buffer.extract 0 (s.buffer.size - n) }

def resetBuffer : Scan Unit := modify fun s => { s with buffer := ByteArray.empty }

/-- More steps than the rest of the text has characters. -/
def remaining : Scan Nat := return (← get).text.size - (← get).position + 2

/-- Whether the current character is the given one; it is skipped then. -/
def skipIf (c : Char) : Scan Bool := do
  if (← current) == some (Bytes.code c) then
    advance
    return true
  return false

/-- Keeps the current character if it is one of two. -/
def saveIf (c d : Char) : Scan Bool := do
  match ← current with
  | some x =>
    if x == Bytes.code c || x == Bytes.code d then
      saveAndAdvance
      return true
    return false
  | none => return false

def isNewline (c : UInt8) : Bool := c == 10 || c == 13

def isWordStart (c : UInt8) : Bool := Ascii.isAlpha c || c == 95

def isWordPart (c : UInt8) : Bool := Ascii.isAlnum c || c == 95

/-- Skips a line break, which may be two different characters. -/
def skipNewline : Scan Unit := do
  let c ← current
  advance
  match ← current with
  | some d => if isNewline d && some d != c then advance
  | none => pure ()
  modify fun s => { s with line := s.line + 1 }

/-! ## Faults -/

def faultNear {α : Type} (what : String) (near : Option Bytes) : Scan α := do
  throw (.malformed (← get).line what.toUTF8 near)

/-- A fault that shows what was read so far. -/
def faultNearBuffer {α : Type} (what : String) : Scan α := do
  faultNear what (some (Token.quoted (← get).buffer.untilNul))

def faultNearEnd {α : Type} (what : String) : Scan α :=
  faultNear what (some (Token.expected .finish))

/-! ## Long brackets -/

def saveEquals (count : Nat) : Nat → Scan Nat
  | 0 => return count
  | fuel + 1 => do
    if (← current) == some 61 then
      saveAndAdvance
      saveEquals (count + 1) fuel
    else return count

/-- Reads `[=*` or `]=*`.  The answer is the length of the bracket when it is complete, one when it
is a single bracket, and zero otherwise. -/
def bracketLength : Scan Nat := do
  let c ← current
  saveAndAdvance
  let count ← saveEquals 0 (← remaining)
  return if (← current) == c then count + 2 else if count == 0 then 1 else 0

/-- Reads on to the closing bracket of a length. -/
def longBody (isString : Bool) (start length : Nat) : Nat → Scan Unit
  | 0 => return ()
  | fuel + 1 => do
    match ← current with
    | none =>
      let what := if isString then "string" else "comment"
      faultNearEnd ("unfinished long " ++ what ++ " (starting at line " ++ toString start ++ ")")
    | some 93 =>
      if (← bracketLength) == length then saveAndAdvance
      else longBody isString start length fuel
    | some c =>
      if isNewline c then
        save 10
        skipNewline
        if !isString then resetBuffer
      else if isString then saveAndAdvance
      else advance
      longBody isString start length fuel

/-- Reads a long string or comment whose opening bracket was read except for its last character. -/
def long (isString : Bool) (length : Nat) : Scan Unit := do
  let start := (← get).line
  saveAndAdvance
  match ← current with
  | some c => if isNewline c then skipNewline
  | none => pure ()
  longBody isString start length (← remaining)

/-! ## Short strings -/

/-- Checks a condition inside an escape sequence. -/
def checkEscape (ok : Bool) (what : String) : Scan Unit := do
  if !ok then
    if (← current).isSome then saveAndAdvance
    faultNearBuffer what

def isCurrent (p : UInt8 → Bool) : Scan Bool := return match ← current with
  | some c => p c
  | none => false

/-- Keeps a character and reads the hexadecimal digit behind it. -/
def hexDigit : Scan Nat := do
  saveAndAdvance
  checkEscape (← isCurrent Ascii.isHexDigit) "hexadecimal digit expected"
  return match ← current with
  | some c => Ascii.hexValue c
  | none => 0

def hexEscape : Scan UInt8 := do
  let a ← hexDigit
  let b ← hexDigit
  unsave 2
  return (a * 16 + b).toUInt8

def codePointDigits (n count : Nat) : Nat → Scan (Nat × Nat)
  | 0 => return (n, count)
  | fuel + 1 => do
    saveAndAdvance
    match ← current with
    | some c =>
      if Ascii.isHexDigit c then
        checkEscape (n ≤ 0x7ffffff) "UTF-8 value too large"
        codePointDigits (n * 16 + Ascii.hexValue c) (count + 1) fuel
      else return (n, count)
    | none => return (n, count)

/-- The number in `\u{…}`, taken out of the buffer. -/
def codePointEscape : Scan Nat := do
  saveAndAdvance
  checkEscape ((← current) == some 123) "missing '\x7b'"
  let first ← hexDigit
  let (n, count) ← codePointDigits first 4 (← remaining)
  checkEscape ((← current) == some 125) "missing '\x7d'"
  advance
  unsave count
  return n

def decimalDigits (n count : Nat) : Nat → Scan (Nat × Nat)
  | 0 => return (n, count)
  | fuel + 1 => do
    match ← current with
    | some c =>
      if Ascii.isDigit c then
        saveAndAdvance
        decimalDigits (n * 10 + (c.toNat - 48)) (count + 1) fuel
      else return (n, count)
    | none => return (n, count)

def decimalEscape : Scan UInt8 := do
  let (n, count) ← decimalDigits 0 0 3
  checkEscape (n ≤ 255) "decimal escape too large"
  unsave count
  return n.toUInt8

def skipSpaces : Nat → Scan Unit
  | 0 => return ()
  | fuel + 1 => do
    match ← current with
    | some c =>
      if isNewline c then
        skipNewline
        skipSpaces fuel
      else if Ascii.isSpace c then
        advance
        skipSpaces fuel
    | none => return ()

/-- The character that a one-letter escape stands for. -/
def simpleEscape (c : UInt8) : Option UInt8 :=
  match Char.ofNat c.toNat with
  | 'a' => some 7
  | 'b' => some 8
  | 'f' => some 12
  | 'n' => some 10
  | 'r' => some 13
  | 't' => some 9
  | 'v' => some 11
  | '\\' | '"' | '\'' => some c
  | _ => none

/-- Reads an escape sequence and puts what it stands for into the buffer. -/
def escape : Scan Unit := do
  saveAndAdvance
  let put (c : UInt8) : Scan Unit := do
    unsave 1
    save c
  match ← current with
  | none => return ()
  | some c =>
    match simpleEscape c with
    | some d =>
      advance
      put d
    | none =>
      match Char.ofNat c.toNat with
      | 'x' =>
        let d ← hexEscape
        advance
        put d
      | 'u' => (CodePoint.encode (← codePointEscape)).forM save
      | '\n' | '\r' =>
        skipNewline
        put 10
      | 'z' =>
        unsave 1
        advance
        skipSpaces (← remaining)
      | _ =>
        checkEscape (Ascii.isDigit c) "invalid escape sequence"
        put (← decimalEscape)

def stringBody (delimiter : UInt8) : Nat → Scan Unit
  | 0 => return ()
  | fuel + 1 => do
    match ← current with
    | none => faultNearEnd "unfinished string"
    | some c =>
      if c == delimiter then saveAndAdvance
      else if isNewline c then faultNearBuffer "unfinished string"
      else if c == 92 then
        escape
        stringBody delimiter fuel
      else
        saveAndAdvance
        stringBody delimiter fuel

/-- The buffer without its delimiters of `n` bytes. -/
def unquoted (n : Nat) : Scan Bytes := do
  let b := (← get).buffer
  return b.extract n (b.size - n)

/-! ## Numbers and words -/

def numeralBody (lower upper : Char) : Nat → Scan Unit
  | 0 => return ()
  | fuel + 1 => do
    if ← saveIf lower upper then
      let _ ← saveIf '-' '+'
      numeralBody lower upper fuel
    else
      match ← current with
      | some c =>
        if Ascii.isHexDigit c || c == 46 then
          saveAndAdvance
          numeralBody lower upper fuel
      | none => return ()

def numeral : Scan Token := do
  let first ← current
  saveAndAdvance
  let hex ← if first == some 48 then saveIf 'x' 'X' else pure false
  if hex then numeralBody 'p' 'P' (← remaining) else numeralBody 'e' 'E' (← remaining)
  if ← isCurrent isWordStart then saveAndAdvance
  match Number.read (← get).buffer with
  | some n => return .number n
  | none => faultNearBuffer "malformed number"

def wordBody : Nat → Scan Unit
  | 0 => return ()
  | fuel + 1 => do
    if ← isCurrent isWordPart then
      saveAndAdvance
      wordBody fuel

def word : Scan Token := do
  wordBody (← remaining)
  let s := (← get).buffer
  match Keyword.ofBytes? s with
  | some w => return .keyword w
  | none => return .name s

/-! ## Tokens -/

def skipLine : Nat → Scan Unit
  | 0 => return ()
  | fuel + 1 => do
    if ← isCurrent fun c => !isNewline c then
      advance
      skipLine fuel

/-- Skips a comment, whose two dashes were read. -/
def comment : Scan Unit := do
  if (← current) == some 91 then
    let length ← bracketLength
    resetBuffer
    if length ≥ 2 then
      long false length
      resetBuffer
      return ()
  skipLine (← remaining)

/-- A one-byte symbol, or a longer one if the given character follows. -/
def orSymbol (c : UInt8) (next : Char) (s : Symbol) : Scan Token := do
  if ← skipIf next then return .symbol s else return .char c

/-- Reads a token that begins at the current character; `none` for blanks and comments. -/
def tokenAt (c : UInt8) : Scan (Option Token) := do
  match Char.ofNat c.toNat with
  | '\n' | '\r' =>
    skipNewline
    return none
  | ' ' | '\x0c' | '\t' | '\x0b' =>
    advance
    return none
  | '-' =>
    advance
    if ← skipIf '-' then
      comment
      return none
    return some (.char c)
  | '[' =>
    let length ← bracketLength
    if length ≥ 2 then
      long true length
      return some (.str (← unquoted length))
    if length == 0 then faultNearBuffer "invalid long string delimiter"
    return some (.char c)
  | '=' =>
    advance
    orSymbol c '=' .eq
  | '<' =>
    advance
    if ← skipIf '=' then return some (.symbol .le)
    orSymbol c '<' .shl
  | '>' =>
    advance
    if ← skipIf '=' then return some (.symbol .ge)
    orSymbol c '>' .shr
  | '/' =>
    advance
    orSymbol c '/' .floorDiv
  | '~' =>
    advance
    orSymbol c '=' .ne
  | ':' =>
    advance
    orSymbol c ':' .doubleColon
  | '"' | '\'' =>
    saveAndAdvance
    stringBody c (← remaining)
    return some (.str (← unquoted 1))
  | '.' =>
    saveAndAdvance
    if ← skipIf '.' then orSymbolSome '.' .dots .concat
    else if ← isCurrent Ascii.isDigit then return some (← numeral)
    else return some (.char c)
  | _ =>
    if Ascii.isDigit c then return some (← numeral)
    else if isWordStart c then return some (← word)
    else
      advance
      return some (.char c)
where
  orSymbol (c : UInt8) (next : Char) (s : Symbol) : Scan (Option Token) := do
    return some (← Scan.orSymbol c next s)
  orSymbolSome (next : Char) (long short : Symbol) : Scan (Option Token) := do
    if ← skipIf next then return some (.symbol long) else return some (.symbol short)

def tokenLoop : Nat → Scan Token
  | 0 => return .finish
  | fuel + 1 => do
    match ← current with
    | none => return .finish
    | some c =>
      match ← tokenAt c with
      | some t => return t
      | none => tokenLoop fuel

/-- Reads the next token. -/
def lexeme : Scan Lexeme := do
  resetBuffer
  let token ← tokenLoop (← remaining)
  return { token, text := (← get).buffer }

end Scan

end LuaHost
