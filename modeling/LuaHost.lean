import LuaHost.Main
import LuaHost.Proofs.Interface.Containing
import LuaHost.Proofs.Interface.Merging
import LuaHost.Proofs.Interface.Protecting
import LuaHost.Session.Run
import LuaHost.Proofs.UserData.Borrowing
import LuaHost.Proofs.UserData.Receiving
import LuaHost.Proofs.Data.Collecting
import LuaHost.Proofs.Handle.Closing
import LuaHost.Proofs.Handle.Discipline
import LuaHost.Proofs.Handle.Outliving
import LuaHost.Proofs.Handle.Agreeing
import LuaHost.Proofs.UserData.Naming
import LuaHost.Proofs.CommandLine.Messages
import LuaHost.Proofs.CommandLine.Scripts
import LuaHost.Proofs.Handle.Converting
import LuaHost.Proofs.Numeric.Rounding
import LuaHost.Proofs.Interface.Viewing
import LuaHost.Proofs.Handle.Calling
import LuaHost.Proofs.UserData.Comparing
import LuaHost.Proofs.UserData.Reading
import LuaHost.Proofs.Interface.Integers
import LuaHost.Proofs.Data.Displaying
import LuaHost.Proofs.Interface.Refusing
import LuaHost.Proofs.CommandLine.Gathering
import LuaHost.Proofs.Numeric.Denotation
