import LuaHost.Numeric.Numeral

/-!
# Tokens

The words of the scripting language, and how error messages show them.
-/

namespace LuaHost

inductive Keyword where
  | andWord | breakWord | doWord | elseWord | elseifWord | endWord | falseWord | forWord
  | functionWord | gotoWord | ifWord | inWord | localWord | nilWord | notWord | orWord | repeatWord
  | returnWord | thenWord | trueWord | untilWord | whileWord
deriving DecidableEq, Inhabited

namespace Keyword

def text : Keyword → String
  | andWord => "and"
  | breakWord => "break"
  | doWord => "do"
  | elseWord => "else"
  | elseifWord => "elseif"
  | endWord => "end"
  | falseWord => "false"
  | forWord => "for"
  | functionWord => "function"
  | gotoWord => "goto"
  | ifWord => "if"
  | inWord => "in"
  | localWord => "local"
  | nilWord => "nil"
  | notWord => "not"
  | orWord => "or"
  | repeatWord => "repeat"
  | returnWord => "return"
  | thenWord => "then"
  | trueWord => "true"
  | untilWord => "until"
  | whileWord => "while"

def all : List Keyword :=
  [andWord, breakWord, doWord, elseWord, elseifWord, endWord, falseWord, forWord, functionWord,
    gotoWord, ifWord, inWord, localWord, nilWord, notWord, orWord, repeatWord, returnWord, thenWord,
    trueWord, untilWord, whileWord]

/-- The keywords by their bytes. -/
def byBytes : List (Bytes × Keyword) := all.map fun w => (w.text.toUTF8, w)

/-- The keyword that a word is, if it is one. -/
def ofBytes? (s : Bytes) : Option Keyword := byBytes.lookup s

end Keyword

/-- Symbols of more than one character. -/
inductive Symbol where
  | floorDiv | concat | dots | eq | ge | le | ne | shl | shr | doubleColon
deriving DecidableEq, Inhabited

def Symbol.text : Symbol → String
  | floorDiv => "//"
  | concat => ".."
  | dots => "..."
  | eq => "=="
  | ge => ">="
  | le => "<="
  | ne => "~="
  | shl => "<<"
  | shr => ">>"
  | doubleColon => "::"

inductive Token where
  /-- A symbol of one byte. -/
  | char (c : UInt8)
  | symbol (s : Symbol)
  | keyword (w : Keyword)
  | name (s : Bytes)
  | str (s : Bytes)
  | number (n : Number)
  | finish
deriving DecidableEq, Inhabited

namespace Token

/-- A token written between quotes in a message. -/
def quoted (s : Bytes) : Bytes := "'".toUTF8 ++ s ++ "'".toUTF8

/-- How a message shows a token; `text` is what was read for a name, a string or a number. -/
def shown (t : Token) (text : Bytes) : Bytes :=
  match t with
  | char c =>
    if Ascii.isPrint c then quoted (Bytes.singleton c)
    else ("'<\\" ++ toString c.toNat ++ ">'").toUTF8
  | symbol s => quoted s.text.toUTF8
  | keyword w => quoted w.text.toUTF8
  | name _ | str _ | number _ => quoted text.untilNul
  | finish => "<eof>".toUTF8

/-- How a message names a kind of token that it expects. -/
def expected : Token → Bytes
  | name _ => "<name>".toUTF8
  | t => t.shown ByteArray.empty

end Token

/-- A token as it was read. -/
structure Lexeme where
  token : Token
  /-- What was read for it, with escapes resolved. -/
  text : Bytes
deriving Inhabited

end LuaHost
