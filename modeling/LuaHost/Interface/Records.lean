import LuaHost.Data.Value
import LuaHost.Machine.Inspect
import LuaHost.Text.Lossy
import LuaHost.Text.Quoted

/-!
# Activation records for the host

What is known of a call, as a host table with one entry for each thing known and as one line of text.
-/

namespace LuaHost.Activation

/-- A text of the record, as far as its first NUL. -/
def shown (s : Bytes) : String := s.untilNul.toText

/-- A count as it is kept in one byte. -/
def inByte (n : Nat) : Int := (n % 256 : Nat)

def summary (a : Activation) : String :=
  "ActivationRecord \x7b name: " ++ Quoted.optional (a.name.map shown)
    ++ ", what: " ++ Quoted.optional (a.what.map shown)
    ++ ", short_src: " ++ Quoted.text (shown a.shortSource)
    ++ ", current_line: " ++ toString a.currentLine ++ " \x7d"

def integer (n : Int) : Data.Value := .ofInt (Int64.ofInt n)

def optionalText : Option String → Data.Value
  | some s => .string s
  | none => .nil

/-- The record as entries; what is not known is `nil`. -/
def entries (a : Activation) : List (String × Data.Value) :=
  [("name", optionalText (a.name.map shown)),
    ("name_what", optionalText (a.nameWhat.map shown)),
    ("what", optionalText (a.what.map shown)),
    ("source", optionalText (a.source.map Bytes.toText)),
    ("short_src", .string (shown a.shortSource)),
    ("current_line", integer a.currentLine),
    ("line_defined", integer a.lineDefined),
    ("last_line_defined", integer a.lastLineDefined),
    ("nups", integer (inByte a.upvalueCount)),
    ("nparams", integer (inByte a.parameters)),
    ("is_vararg", .bool a.isVararg),
    ("is_tail_call", .bool a.isTailCall),
    ("debug", .string a.summary)]

/-- The record as a host table. -/
def toTable (a : Activation) : Data.Table :=
  .ofEntries (a.entries.map fun e => (.string e.1, e.2))

end LuaHost.Activation
