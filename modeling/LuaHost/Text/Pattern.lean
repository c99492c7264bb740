import LuaHost.Text.Bytes

/-!
# Patterns

A pattern is a sequence of items: single bytes or classes with a repetition, captures, anchors,
balanced pairs and frontiers.  Matching tries the items in order and backtracks over repetitions.

A malformed part of a pattern is an item too, since it is an error only when matching arrives there.
-/

namespace LuaHost

/-- What can be wrong with a pattern, or with the use of its captures. -/
inductive PatternFault where
  | endsWithEscape
  | missingBracket
  | missingBalance
  | missingFrontier
  | captureIndex (i : Int)
  | invalidCapture
  | unfinishedCapture
  | tooManyCaptures
  | tooComplex
deriving DecidableEq, Inhabited

def PatternFault.message : PatternFault → String
  | endsWithEscape => "malformed pattern (ends with '%')"
  | missingBracket => "malformed pattern (missing ']')"
  | missingBalance => "malformed pattern (missing arguments to '%b')"
  | missingFrontier => "missing '[' after '%f' in pattern"
  | captureIndex i => "invalid capture index %" ++ toString i
  | invalidCapture => "invalid pattern capture"
  | unfinishedCapture => "unfinished capture"
  | tooManyCaptures => "too many captures"
  | tooComplex => "pattern too complex"

namespace Pattern

/-! ## Classes of bytes -/

/-- The class that a letter names; an upper-case letter names the complement. -/
def classHas (letter c : UInt8) : Bool :=
  let of? : Option Bool := match Char.ofNat (Ascii.toLower letter).toNat with
    | 'a' => some (Ascii.isAlpha c)
    | 'c' => some (Ascii.isControl c)
    | 'd' => some (Ascii.isDigit c)
    | 'g' => some (Ascii.isGraph c)
    | 'l' => some (Ascii.isLower c)
    | 'p' => some (Ascii.isPunct c)
    | 's' => some (Ascii.isSpace c)
    | 'u' => some (Ascii.isUpper c)
    | 'w' => some (Ascii.isAlnum c)
    | 'x' => some (Ascii.isHexDigit c)
    | 'z' => some (c == 0)
    | _ => none
  match of? with
  | some r => if Ascii.isLower letter then r else !r
  | none => letter == c

inductive Member where
  | byte (c : UInt8)
  | range (low high : UInt8)
  | cls (letter : UInt8)
deriving DecidableEq, Inhabited

def Member.has : Member → UInt8 → Bool
  | byte b, c => b == c
  | range low high, c => low ≤ c && c ≤ high
  | cls letter, c => classHas letter c

/-- What one byte is matched against. -/
inductive Single where
  | any
  | byte (c : UInt8)
  | cls (letter : UInt8)
  | set (negated : Bool) (members : List Member)
deriving Inhabited

def Single.has : Single → UInt8 → Bool
  | any, _ => true
  | byte b, c => b == c
  | cls letter, c => classHas letter c
  | set negated ms, c => (ms.any fun m => m.has c) != negated

inductive Repetition where
  | once | optional | many | atLeastOnce | fewest
deriving DecidableEq, Inhabited

inductive Item where
  | single (s : Single) (r : Repetition)
  | openCapture
  | position
  | closeCapture
  | subjectEnd
  | balance (opening closing : UInt8)
  | frontier (s : Single)
  | back (digit : UInt8)
  | fault (f : PatternFault)
deriving Inhabited

end Pattern

/-- A pattern: whether it matches at the beginning of the subject only, and its items. -/
structure Pattern where
  anchored : Bool
  items : List Pattern.Item
deriving Inhabited

namespace Pattern

/-! ## Reading a pattern -/

/-- The members of a set, from the bytes between its brackets. -/
def readMembers : List UInt8 → List Member
  | 37 :: c :: r => .cls c :: readMembers r
  | a :: 45 :: b :: r => .range a b :: readMembers r
  | a :: r => .byte a :: readMembers r
  | [] => []

/-- Splits at the bracket that closes a set; the first byte and escaped ones do not close it. -/
def splitSet (first : Bool) : List UInt8 → Option (List UInt8 × List UInt8)
  | [] => none
  | c :: r =>
    if c == 93 && !first then some ([], r)
    else if c == 37 then
      match r with
      | d :: r' => (splitSet false r').map fun (inside, rest) => (37 :: d :: inside, rest)
      | [] => none
    else (splitSet false r).map fun (inside, rest) => (c :: inside, rest)

/-- A set, after its opening bracket. -/
def readSet (p : List UInt8) : Except PatternFault (Single × List UInt8) :=
  let (negated, p) := match p with
    | 94 :: r => (true, r)
    | r => (false, r)
  match splitSet true p with
  | some (inside, rest) => .ok (.set negated (readMembers inside), rest)
  | none => .error .missingBracket

/-- A single, and what follows it. -/
def readSingle : List UInt8 → Except PatternFault (Single × List UInt8)
  | 37 :: c :: r => .ok (.cls c, r)
  | [37] => .error .endsWithEscape
  | 91 :: r => readSet r
  | 46 :: r => .ok (.any, r)
  | c :: r => .ok (.byte c, r)
  | [] => .error .endsWithEscape

def readRepetition : List UInt8 → Repetition × List UInt8
  | 63 :: r => (.optional, r)
  | 42 :: r => (.many, r)
  | 43 :: r => (.atLeastOnce, r)
  | 45 :: r => (.fewest, r)
  | r => (.once, r)

/-- The first item, and what follows it. -/
def readItem (p : List UInt8) : Except PatternFault (Item × List UInt8) :=
  match p with
  | 40 :: 41 :: r => .ok (.position, r)
  | 40 :: r => .ok (.openCapture, r)
  | 41 :: r => .ok (.closeCapture, r)
  | [36] => .ok (.subjectEnd, [])
  | 37 :: 98 :: x :: y :: r => .ok (.balance x y, r)
  | 37 :: 98 :: _ => .error .missingBalance
  | 37 :: 102 :: 91 :: r => (readSet r).map fun (s, r) => (.frontier s, r)
  | 37 :: 102 :: _ => .error .missingFrontier
  | p =>
    match p with
    | 37 :: d :: r =>
      if Ascii.isDigit d then .ok (.back d, r)
      else
        let (rep, r) := readRepetition r
        .ok (.single (.cls d) rep, r)
    | p => do
      let (s, r) ← readSingle p
      let (rep, r) := readRepetition r
      return (.single s rep, r)

/-- The items of a pattern; `fuel` is its length. -/
def readItems : List UInt8 → Nat → List Item
  | [], _ => []
  | _, 0 => []
  | p, fuel + 1 =>
    match readItem p with
    | .ok (i, r) => i :: readItems r fuel
    | .error f => [.fault f]

/-- Reads a pattern whose first `^` is an anchor. -/
def read (p : Bytes) : Pattern :=
  match p.data.toList with
  | 94 :: r => ⟨true, readItems r r.length⟩
  | l => ⟨false, readItems l l.length⟩

/-- Reads a pattern in which `^` is an ordinary byte. -/
def readUnanchored (p : Bytes) : Pattern :=
  let l := p.data.toList
  ⟨false, readItems l l.length⟩

/-- Whether a pattern is only the bytes it consists of. -/
def isPlain (p : Bytes) : Bool := p.data.toList.all fun c =>
  !("^$*+?.([%-".toUTF8.data.contains c)

/-! ## Matching -/

/-- The extent of a capture: still open, a position only, or a number of bytes. -/
inductive Extent where
  | unfinished
  | position
  | length (n : Nat)
deriving DecidableEq, Inhabited

structure Capture where
  start : Nat
  extent : Extent
deriving DecidableEq, Inhabited

abbrev Captures := Array Capture

/-- The end of a match and its captures. -/
abbrev Outcome := Except PatternFault (Option (Nat × Captures))

/-- Tries items from a position. -/
abbrev Matcher := List Item → Nat → Captures → Outcome

def maxCaptures : Nat := 32

/-- How deeply matching may nest. -/
def maxDepth : Nat := 200

def hasAt (src : Bytes) (s : Nat) (x : Single) : Bool :=
  s < src.size && x.has (src.byteAt s)

/-- How many bytes from a position belong to a class. -/
def runLength (src : Bytes) (x : Single) (s : Nat) : Nat → Nat
  | 0 => 0
  | fuel + 1 => if hasAt src s x then runLength src x (s + 1) fuel + 1 else 0

/-- Tries the rest after `n`, `n - 1`, …, 0 repetitions. -/
def longestFirst (sub : Matcher) (rest : List Item) (s : Nat) (caps : Captures) : Nat → Outcome
  | 0 => sub rest s caps
  | n + 1 => do
    match ← sub rest (s + n + 1) caps with
    | some r => return some r
    | none => longestFirst sub rest s caps n

/-- Tries the rest after 0, 1, … repetitions, as many as match. -/
def shortestFirst (src : Bytes) (sub : Matcher) (x : Single) (rest : List Item) (caps : Captures)
    (s : Nat) : Nat → Outcome
  | 0 => sub rest s caps
  | fuel + 1 => do
    match ← sub rest s caps with
    | some r => return some r
    | none =>
      if hasAt src s x then shortestFirst src sub x rest caps (s + 1) fuel else return none

/-- The end of a balanced stretch that has `depth` pairs open. -/
def balanceEnd (src : Bytes) (opening closing : UInt8) (s depth : Nat) : Nat → Option Nat
  | 0 => none
  | fuel + 1 =>
    if s < src.size then
      let c := src.byteAt s
      if c == closing then
        if depth == 1 then some (s + 1)
        else balanceEnd src opening closing (s + 1) (depth - 1) fuel
      else if c == opening then balanceEnd src opening closing (s + 1) (depth + 1) fuel
      else balanceEnd src opening closing (s + 1) depth fuel
    else none

/-- The innermost capture that is still open. -/
def openIndex? (caps : Captures) : Nat → Option Nat
  | 0 => none
  | n + 1 => if (caps.getD n default).extent == .unfinished then some n else openIndex? caps n

/-- The end of a repeated capture. -/
def backEnd (src : Bytes) (caps : Captures) (s : Nat) (digit : UInt8) :
    Except PatternFault (Option Nat) :=
  let l := (digit.toNat : Int) - 49
  match if l < 0 then none else caps[l.toNat]? with
  | none => .error (.captureIndex (l + 1))
  | some c =>
    match c.extent with
    | .unfinished => .error (.captureIndex (l + 1))
    | .position => .ok none
    | .length n =>
      .ok (if src.matchesAt (src.extract c.start (c.start + n)) s then some (s + n) else none)

/-- Tries items in order; `sub` tries what needs a nested match. -/
def matchItems (src : Bytes) (sub : Matcher) : Matcher
  | [], s, caps => .ok (some (s, caps))
  | item :: rest, s, caps =>
    match item with
    | .fault f => .error f
    | .openCapture =>
      if caps.size ≥ maxCaptures then .error .tooManyCaptures
      else sub rest s (caps.push ⟨s, .unfinished⟩)
    | .position =>
      if caps.size ≥ maxCaptures then .error .tooManyCaptures
      else sub rest s (caps.push ⟨s, .position⟩)
    | .closeCapture =>
      match openIndex? caps caps.size with
      | none => .error .invalidCapture
      | some i => sub rest s (caps.modify i fun c => { c with extent := .length (s - c.start) })
    | .subjectEnd => .ok (if s == src.size then some (s, caps) else none)
    | .balance opening closing =>
      if src.byteAt s == opening then
        match balanceEnd src opening closing (s + 1) 1 (src.size - s) with
        | some e => matchItems src sub rest e caps
        | none => .ok none
      else .ok none
    | .frontier x =>
      let before := if s == 0 then 0 else src.byteAt (s - 1)
      if !x.has before && x.has (src.byteAt s) then matchItems src sub rest s caps else .ok none
    | .back digit => do
      match ← backEnd src caps s digit with
      | some e => matchItems src sub rest e caps
      | none => return none
    | .single x rep =>
      let here := hasAt src s x
      match rep with
      | .once => if here then matchItems src sub rest (s + 1) caps else .ok none
      | .optional =>
        if here then do
          match ← sub rest (s + 1) caps with
          | some r => return some r
          | none => matchItems src sub rest s caps
        else matchItems src sub rest s caps
      | .many =>
        if here then longestFirst sub rest s caps (runLength src x s (src.size - s))
        else matchItems src sub rest s caps
      | .atLeastOnce =>
        if here then longestFirst sub rest (s + 1) caps (runLength src x (s + 1) (src.size - s))
        else .ok none
      | .fewest =>
        if here then shortestFirst src sub x rest caps s (src.size - s)
        else matchItems src sub rest s caps

/-- Matches with a bound on the nesting. -/
def matchNested (src : Bytes) : Nat → Matcher
  | 0 => fun _ _ _ => .error .tooComplex
  | depth + 1 => matchItems src (matchNested src depth)

/-- Matches a pattern at one position. -/
def matchAt (p : Pattern) (src : Bytes) (s : Nat) : Outcome :=
  matchNested src maxDepth p.items s #[]

/-- The first match at or after a position: its beginning, end and captures.  `fuel` is the number
of further positions. -/
def searchFrom (p : Pattern) (src : Bytes) (s : Nat) :
    Nat → Except PatternFault (Option (Nat × Nat × Captures))
  | 0 => return (← p.matchAt src s).map fun (e, caps) => (s, e, caps)
  | fuel + 1 => do
    match ← p.matchAt src s with
    | some (e, caps) => return some (s, e, caps)
    | none => if p.anchored then return none else searchFrom p src (s + 1) fuel

/-- The first match at or after a position. -/
def search (p : Pattern) (src : Bytes) (s : Nat) :
    Except PatternFault (Option (Nat × Nat × Captures)) :=
  p.searchFrom src s (src.size - s)

end Pattern

end LuaHost
