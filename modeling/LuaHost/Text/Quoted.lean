/-!
# Quoted text

A text between double quotes, in which every character can be seen: quotes, backslashes, controls and
characters without a shape of their own are written as escapes.
-/

namespace LuaHost.Quoted

/-- Ranges of characters that have no shape of their own: controls, format characters, blanks other
than the space, marks that join the character before them, and private and unassigned planes. -/
def hidden : List (Nat × Nat) :=
  [(0x00, 0x1f), (0x7f, 0xa0), (0xad, 0xad), (0x300, 0x36f), (0x483, 0x489), (0x591, 0x5bd),
    (0x610, 0x61a), (0x61c, 0x61c), (0x64b, 0x65f), (0x670, 0x670), (0x6d6, 0x6dd),
    (0x1680, 0x1680), (0x180b, 0x180f), (0x1ab0, 0x1ace), (0x1dc0, 0x1dff), (0x2000, 0x200f),
    (0x2028, 0x202f), (0x205f, 0x206f), (0x20d0, 0x20f0), (0x3000, 0x3000), (0x302a, 0x302f),
    (0x3099, 0x309a), (0xe000, 0xf8ff), (0xfe00, 0xfe0f), (0xfe20, 0xfe2f), (0xfeff, 0xfeff),
    (0xfff0, 0xfffb), (0xfffe, 0xffff), (0xe0000, 0x10ffff)]

def isHidden (c : Char) : Bool := hidden.any fun (a, b) => a ≤ c.toNat && c.toNat ≤ b

/-- The escape of a character by its number. -/
def numbered (c : Char) : String :=
  "\\u\x7b" ++ String.ofList (Nat.toDigits 16 c.toNat) ++ "\x7d"

/-- A character as it stands between the quotes. -/
def escape (c : Char) : String :=
  match c with
  | '"' => "\\\""
  | '\\' => "\\\\"
  | '\n' => "\\n"
  | '\r' => "\\r"
  | '\t' => "\\t"
  | '\x00' => "\\0"
  | c => if isHidden c then numbered c else c.toString

def text (s : String) : String := "\"" ++ String.join (s.toList.map escape) ++ "\""

/-- A text that may be missing. -/
def optional : Option String → String
  | some s => "Some(" ++ text s ++ ")"
  | none => "None"

end LuaHost.Quoted
