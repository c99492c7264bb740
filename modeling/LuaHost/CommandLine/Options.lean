/-!
# Options of the command line

The words after the program's name: options first, then a script with its arguments, or a dash for
the standard input with its arguments.  Two dashes end the options.
-/

namespace LuaHost.CommandLine

/-- What a command line asks for. -/
structure Options where
  /-- Statements to execute, in order. -/
  statements : List String := []
  interactive : Bool := false
  showVersion : Bool := false
  script : Option String := none
  /-- The arguments of the script, or of the standard input. -/
  arguments : List String := []
  /-- Whether the standard input is the script. -/
  readInput : Bool := false
  ignoreEnvironment : Bool := false
  warnings : Bool := false
deriving DecidableEq, Inhabited

/-- Why a command line is refused. -/
inductive OptionFault where
  | missingStatement
  | unrecognized (option : String)
deriving DecidableEq, Inhabited

def OptionFault.message : OptionFault → String
  | .missingStatement => "'-e' needs argument"
  | .unrecognized option => "unrecognized option '" ++ option ++ "'"

namespace Options

/-- Whether a word is written as an option. -/
def isOption (word : String) : Bool := word.toList.head? == some '-'

/-- The script, if there is one, and its arguments. -/
def withScript (o : Options) : List String → Options
  | [] => o
  | script :: arguments => { o with script := some script, arguments }

def withInput (o : Options) (arguments : List String) : Options :=
  { o with readInput := true, arguments }

/-- Reads words, on top of what the words before them have asked for. -/
def parseFrom (o : Options) : List String → Except OptionFault Options
  | [] => .ok o
  | "-e" :: [] => .error .missingStatement
  | "-e" :: statement :: rest => parseFrom { o with statements := o.statements ++ [statement] } rest
  | "-i" :: rest => parseFrom { o with interactive := true, showVersion := true } rest
  | "-v" :: rest => parseFrom { o with showVersion := true } rest
  | "-E" :: rest => parseFrom { o with ignoreEnvironment := true } rest
  | "-W" :: rest => parseFrom { o with warnings := true } rest
  | "--" :: rest => .ok (o.withScript rest)
  | "-" :: rest => .ok (o.withInput rest)
  | word :: rest =>
    if isOption word then .error (.unrecognized word) else .ok (o.withScript (word :: rest))

/-- Reads the words after the program's name. -/
def parse (words : List String) : Except OptionFault Options := parseFrom {} words

/-- Whether the prompt is shown after everything else: on demand, and when there is nothing else to
do. -/
def prompts (o : Options) : Bool :=
  o.interactive
    || (o.statements.isEmpty && o.script.isNone && !o.readInput && !o.showVersion)

end Options

/-! ## What the program says of itself -/

def versionLine : String :=
  "Lua 5.4 (luabind)  Copyright (C) 1994-2024 Lua.org, PUC-Rio"

def usage : List String :=
  ["usage: lua [options] [script [args]]",
    "Available options are:",
    "  -e stat   execute string 'stat'",
    "  -i        enter interactive mode after executing 'script'",
    "  -v        show version information",
    "  -E        ignore environment variables",
    "  -W        turn warnings on",
    "  --        stop handling options",
    "  -         stop handling options and execute stdin"]

end LuaHost.CommandLine
