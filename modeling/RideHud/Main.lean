import RideHud.Console.Program
import RideHud.Console.Usage

/-!
# The program on a computer

Commands run on the files of the computer, read what is streamed to the program and write their
reports. A command that fails ends the program with status 1, a command line that cannot be read with
status 2, and a program that breaks off with status 101.
-/

namespace RideHud.Console

/-- What is said about an error of the system. -/
def systemReason : IO.Error → String
  | .alreadyExists _ code details | .otherError code details | .resourceBusy code details
  | .resourceVanished code details | .unsupportedOperation code details
  | .hardwareFault code details | .unsatisfiedConstraints code details
  | .illegalOperation code details | .protocolError code details | .timeExpired code details
  | .interrupted _ code details | .noFileOrDirectory _ code details
  | .invalidArgument _ code details | .permissionDenied _ code details
  | .resourceExhausted _ code details | .inappropriateType _ code details
  | .noSuchThing _ code details => s!"{details} (os error {code})"
  | .unexpectedEof => "unexpected end of file"
  | .userError message => message

/-- Act on the system; a failure is told. -/
def attempt {α : Type} (action : IO α) : IO (Except String α) := do
  try return .ok (← action)
  catch e => return .error (systemReason e)

/-- The file under a path. -/
def findFile (path : String) : IO Found := do
  try return .file (← IO.FS.readBinFile path)
  catch
  | .noFileOrDirectory .. => return .nothing
  | e => return .unreadable (systemReason e)

/-- The bytes of a stream, up to its end. -/
partial def readToEnd (stream : IO.FS.Stream) (bytes : ByteArray) : IO ByteArray := do
  let more ← stream.read 65536
  if more.isEmpty then return bytes else readToEnd stream (bytes ++ more)

instance : Host IO where
  find := findFile
  write path content := attempt (IO.FS.writeBinFile path content.get)
  makeFolder path := attempt (IO.FS.createDirAll path)
  input := do
    match ← attempt (do readToEnd (← IO.getStdin) .empty) with
    | .ok bytes => return [.data bytes.toList]
    | .error reason => return [.failed reason]
  millis := return Float.ofNat (← IO.monoNanosNow) / 1000000

/-- A failure as it is written: what was tried, and what it came from. -/
def Failure.lines (e : Failure) : List String :=
  if e.breaksOff then e.chain
  else
    match e.chain with
    | [] => []
    | [message] => ["Error: " ++ message]
    | [message, cause] => ["Error: " ++ message, "", "Caused by:", "    " ++ cause]
    | message :: causes => ["Error: " ++ message, "", "Caused by:"] ++
        causes.zipIdx.map fun (cause, i) => s!"    {i}: {cause}"

/-- The status that a failure ends the program with. -/
def Failure.status (e : Failure) : UInt32 := if e.breaksOff then 101 else 1

/-- Write the report of a command, and give the status that the program ends with. -/
def Report.print (report : Report) : IO UInt32 := do
  report.output.toLines.forM IO.println
  match report.failure with
  | none => return 0
  | some e =>
    e.lines.forM IO.eprintln
    return e.status

end RideHud.Console

open RideHud.Console in
/-- Run the command that the arguments ask for. -/
def main (arguments : List String) : IO UInt32 := do
  match Invocation.ofArguments arguments with
  | .ok invocation => (← invocation.command.run).print
  | .error e =>
    if e.isAnswer then
      e.lines.forM IO.println
      return 0
    else
      e.lines.forM IO.eprintln
      return 2
