import LuaHost.Interface.Embedding
import LuaHost.Stock.Functions

/-!
# The host

The functions, the types and the hook at hand, as what a program brings to its machine.
-/

namespace LuaHost.Stock

/-- Reports a line, and yields. -/
def reportLine (t : ThreadId) (line : Int) : M Unit := do
  Machine.recordEvent ("hook line " ++ toString line)
  Interface.yieldInHook t

def embedding : Embedding :=
  { function := fun f => runFunction (StockFn.ofFn f)
    continuation := fun k => runContinuation (StockContinuation.ofContinuation k)
    types := types
    lineHook := reportLine }

def host : Host := embedding.host

end LuaHost.Stock
