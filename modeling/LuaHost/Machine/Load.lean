import LuaHost.Chunk.Binary
import LuaHost.Chunk.Grammar
import LuaHost.Machine.Calling
import LuaHost.Machine.Protect

/-!
# Loading chunks

A chunk is a text or a compiled one; a mode may allow only one of them.  A loaded chunk is a function
whose first upvalue is the table of globals.
-/

namespace LuaHost

/-- The message about a fault in a chunk's text. -/
def ChunkFault.message (source : Bytes) : ChunkFault → Bytes
  | .malformed line what near =>
    Machine.located (some source) line what ++ match near with
      | some n => " near ".toUTF8 ++ n
      | none => ByteArray.empty
  | .tooDeep => "C stack overflow".toUTF8

/-- How messages about a compiled chunk name it. -/
def binaryName (name : Bytes) : Bytes :=
  match name.byte? 0 with
  | some 61 | some 64 => name.extract 1 name.size
  | some 0x1b => "binary string".toUTF8
  | _ => name

namespace Machine

/-- Raises an error about the form of a chunk. -/
def chunkError {α : Type} (t : ThreadId) (msg : Bytes) : M α := do
  push t (.str msg)
  throwStatus t .errSyntax

def checkMode (t : ThreadId) (mode : Option Bytes) (kind : String) : M Unit := do
  match mode with
  | none => return ()
  | some m =>
    let letter := Bytes.byteAt kind.toUTF8 0
    if (m.findByte? (· == letter) 0).isNone then
      chunkError t (("attempt to load a " ++ kind ++ " chunk (mode is '").toUTF8 ++ m
        ++ "')".toUTF8)

/-- The compiled form of a chunk, or an error. -/
def prototypeOf (t : ThreadId) (chunk name : Bytes) (mode : Option Bytes) : M Prototype := do
  if chunk.byte? 0 == some 0x1b then
    checkMode t mode "binary"
    match Binary.read chunk with
    | .ok p => return p
    | .error why =>
      chunkError t (binaryName name ++ (": bad binary format (" ++ why ++ ")").toUTF8)
  else
    checkMode t mode "text"
    match compileText chunk name (maxNesting - 1 - (← thread t).nesting) with
    | .ok p => return p
    | .error .tooDeep => runErrorText t "C stack overflow"
    | .error f => chunkError t (f.message name)

/-- Pushes the function of a chunk. -/
def pushChunk (t : ThreadId) (chunk : M Bytes) (name : Bytes) (mode : Option Bytes) : M Unit := do
  let p ← prototypeOf t (← chunk) name mode
  let env ← globals
  let ups ← (List.range p.upvalues.size).mapM fun i =>
    newUpvalue (.closed (if i == 0 then env else .nil))
  push t (.closure (← newClosure (.script p ups.toArray)))

/-- Loads a chunk from where its bytes come from: pushes its function, or the message about what is
wrong. -/
def loadFrom (t : ThreadId) (chunk : M Bytes) (name : Bytes) (mode : Option Bytes) :
    M Status := do
  let th ← thread t
  let base := th.top
  let handler := th.handler
  modifyThread t fun th => { th with unyieldable := th.unyieldable + 1 }
  let status ← runProtected t base handler (pushChunk t chunk name mode)
  modifyThread t fun th => { th with unyieldable := th.unyieldable - 1 }
  return status

/-- Loads a chunk. -/
def loadChunk (t : ThreadId) (chunk name : Bytes) (mode : Option Bytes) : M Status :=
  loadFrom t (return chunk) name mode

end Machine

end LuaHost
