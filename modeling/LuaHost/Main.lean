import LuaHost.CommandLine.Program

/-!
# The command line

Reads what is around the program, runs it, and writes back what it has changed.
-/

namespace LuaHost.CommandLine

/-- The environment's variables that the program looks at. -/
def variableNames : List String :=
  ["LUA_INIT_5_4", "LUA_INIT", "LUA_PATH_5_4", "LUA_PATH", "LUA_CPATH_5_4", "LUA_CPATH", "HOME",
    "PATH", "USER"]

/-- The files of the current directory, with their names. -/
def readFiles : IO (List (String × Bytes)) := do
  let entries ← (← IO.currentDir).readDir
  let files ← entries.toList.filterMapM fun e => do
    if ← e.path.isDir then return none
    try return some (e.fileName, ← IO.FS.readBinFile e.path)
    catch _ => return none
  return files

/-- Writes the files that differ from what they were, and removes those that are gone. -/
def writeFiles (old new : List (String × Bytes)) : IO Unit := do
  for (name, content) in new do
    if old.lookup name != some content then IO.FS.writeBinFile name content
  for (name, _) in old do
    if (new.lookup name).isNone then IO.FS.removeFile name

def readSurroundings : IO Outside := do
  let environment ← variableNames.filterMapM fun name => do
    return (← IO.getEnv name).map fun v => (name, v)
  return { files := ← readFiles, environment, input := ← (← IO.getStdin).readBinToEnd }

end LuaHost.CommandLine

open LuaHost.CommandLine in
def main (words : List String) : IO UInt32 := do
  let before ← readSurroundings
  let (after, code) := run words before
  (← IO.getStdout).write after.output
  (← IO.getStderr).write after.errors
  writeFiles before.files after.files
  return code.toUInt32
