import Unstack.CommandLine
import Unstack.CommandLine.Path
import Unstack.CommandLine.Terminal

/-!
# The program

Runs the command line against the files and the terminal of the machine.
-/

namespace Unstack.CommandLine

/-- The number of an operating system fault, which may come with a minus sign. -/
def systemCode (code : UInt32) : Nat := code.toInt32.toInt.natAbs

/-- The wording of the fault with a number; the system describes those that are not known here. -/
def faultMessage (code : UInt32) (details : String) : String :=
  match FileFault.ofCode? (systemCode code) with
  | some fault => fault.message
  | none => FileFault.wording details (systemCode code)

/-- The wording of an operating system fault. -/
def systemMessage : IO.Error → String
  | .noFileOrDirectory _ code details => faultMessage code details
  | .inappropriateType _ code details => faultMessage code details
  | .invalidArgument _ code details => faultMessage code details
  | .permissionDenied _ code details => faultMessage code details
  | .resourceExhausted _ code details => faultMessage code details
  | .noSuchThing _ code details => faultMessage code details
  | other => toString other

/-- Writes a text into a file and waits until it is there. -/
def writeWhole (path text : String) : IO Unit := do
  let file ← IO.FS.Handle.mk path .write
  file.putStr text
  file.flush

/-- The machine as a host. -/
def machine (colors : Bool) : Host IO where
  readFile path := do
    match ← (IO.FS.readBinFile path).toBaseIO with
    | .ok bytes => return .ok bytes
    | .error e => return .error (systemMessage e)
  writeFile path text := do
    match ← (writeWhole path text).toBaseIO with
    | .ok () => return .ok ()
    | .error e => return .error (systemMessage e)
  fileWriter := .ofColors
  terminalWriter colored := .ofColors (colored && colors)

end Unstack.CommandLine

/-- Runs the program on its arguments. -/
def main (arguments : List String) : IO UInt32 := do
  let terminal ← IO.getEnv "TERM"
  let noColor ← IO.getEnv "NO_COLOR"
  let colors := terminal.isSome && terminal != some "dumb" && noColor.isNone
  let outcome ← Unstack.CommandLine.run (Unstack.CommandLine.machine colors) arguments
  IO.print outcome.stdout
  IO.eprint outcome.stderr
  return UInt32.ofNat outcome.code
