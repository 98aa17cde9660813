import ProxyRouting.CommandLine.Run
import Std.Time

/-!
The program: the command line in the real world.
-/
namespace ProxyRouting.CommandLine

/-- Why an operation on a file failed. -/
def fileFault : IO.Error → FileFault
  | .noFileOrDirectory _ _ _ => .missing
  | .permissionDenied _ _ _ => .denied
  | .inappropriateType _ code _ => if code = 21 then .isDirectory else .notDirectory
  | .invalidArgument _ code details => if code = 36 then .nameTooLong else .other details.toList
  | e => .other e.toString.toList

/-- An operation on a file with its fault as a value. -/
def attempt {α : Type} (operation : IO α) : IO (Except FileFault α) := do
  match ← operation.toBaseIO with
  | .ok a => return .ok a
  | .error e => return .error (fileFault e)

/-- The text of a file. -/
def readText (path : Text) : IO (Except FileFault Text) := do
  match ← attempt (IO.FS.readBinFile (String.ofList path)) with
  | .error fault => return .error fault
  | .ok bytes => return (String.fromUTF8? bytes).elim (.error .notText) fun content => .ok content.toList

/-- The local time to the minute. -/
def localNow : IO LocalTime := do
  let t ← Std.Time.PlainDateTime.now
  return .ofNumbers t.year.toInt t.month.val.toNat t.day.val.toNat t.hour.val.toNat t.minute.val.toNat

/-- The files of the system, and its clocks. -/
def systemEnvironment : Environment IO where
  read := readText
  write path content := attempt (IO.FS.writeFile (String.ofList path) (String.ofList content))
  now := localNow
  ticks := return (← IO.monoNanosNow) / 1000

end ProxyRouting.CommandLine

/-- Runs the command line given to the program. -/
def main (args : List String) : IO UInt32 := do
  let outcome ← ProxyRouting.CommandLine.run ProxyRouting.CommandLine.systemEnvironment (args.map String.toList)
  IO.print (String.ofList outcome.out)
  IO.eprint (String.ofList outcome.err)
  return outcome.code.toUInt32
