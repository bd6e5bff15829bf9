/-
Purpose: The program.
-/
import Linkage.Command.Run

namespace Linkage

/-- A failure in the words of the system. -/
def systemWords : IO.Error → String
  | .noFileOrDirectory _ code _ => s!"No such file or directory (os error {code})"
  | .permissionDenied _ code _ => s!"Permission denied (os error {code})"
  | error => toString error

/-- The files of the machine. -/
def machineDisk : Disk IO where
  read path := do
    try return .ok (← IO.FS.readFile path)
    catch error => return .error (systemWords error)
  write path text := do
    try
      IO.FS.writeFile path text
      return .ok ()
    catch error => return .error (systemWords error)

end Linkage

def main (arguments : List String) : IO UInt32 := do
  let result ← Linkage.runArguments Linkage.machineDisk arguments
  IO.eprint result.text
  return result.exit.toUInt32
