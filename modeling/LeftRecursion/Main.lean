import LeftRecursion.Command.Run

/-!
# The command line
-/

namespace LeftRecursion

def FileError.ofIOError : IO.Error → FileError
  | .noFileOrDirectory .. => .notFound
  | .inappropriateType _ code _ => if code = 20 then .notADirectory else .isDirectory
  | e => .other (toString e)

def readAll (stream : IO.FS.Stream) : IO ByteArray := do
  let mut bytes := ByteArray.empty
  repeat
    let chunk ← stream.read 65536
    if chunk.isEmpty then
      break
    bytes := bytes ++ chunk
  return bytes

def Source.fetch (source : Source) : IO (Except FileError ByteArray) := do
  try
    match source with
    | .standardInput => return .ok (← readAll (← IO.getStdin))
    | .file name => return .ok (← IO.FS.readBinFile name)
  catch e =>
    return .error (.ofIOError e)

/-- Runs the command line in the working directory, with a log of warnings and no times. -/
def runHere (args : List String) : IO UInt32 := do
  let outcome ← (Command.ofArgs args).run Source.fetch
  for e in outcome.entries do
    if e.isWarning then
      IO.eprintln (String.ofList e.line)
  IO.eprint outcome.report
  IO.print outcome.standardOutput
  return outcome.exitCode.toUInt32

end LeftRecursion

def main (args : List String) : IO UInt32 :=
  LeftRecursion.runHere args
