import UnitCheck.Command.Run

/-! # The program

Gives the environment, a fresh run id and the file that the command line names to the command, and writes
what it leaves behind. -/

namespace UnitCheck.Program

open Command (Entry World)

/-- The environment variables that settings are read from. -/
def environment : IO Environment := do
  let names := ["PHYSGRAPH_MAX_DEPTH", "PHYSGRAPH_LOG_LEVEL", "GIT_COMMIT"]
  let values ← names.mapM fun name => do return (name, ← IO.getEnv name)
  return .ofList (values.filterMap fun (name, value) => value.map (name, ·))

/-- A random id: sixteen bytes in hexadecimal digits, of which four bits give the version and two the
    variant. -/
def freshRunId : IO String := do
  let bytes := (← IO.getRandomBytes 16).toList.map UInt8.toNat
  let marked := bytes.mapIdx fun i b =>
    if i = 6 then b % 16 + 0x40 else if i = 8 then b % 64 + 0x80 else b
  let digits := marked.flatMap (Text.hexadecimal 2)
  let groups := [(0, 8), (8, 4), (12, 4), (16, 4), (20, 12)]
  return "-".intercalate (groups.map fun (start, length) => String.ofList ((digits.drop start).take length))

/-- What is found under a path. -/
def entryAt (path : String) : IO Entry := do
  try
    return .file (← IO.FS.readFile path)
  catch
    | .noFileOrDirectory .. => return .missing
    | .inappropriateType .. => return .directory
    | e => throw e

/-- Runs a command line. -/
def run (line : List String) : IO UInt32 := do
  let path := Command.pathOf? line
  let found ← match path with
    | some p => entryAt p
    | none => pure .missing
  let world : World :=
    ⟨← environment, fun p => if path = some p then found else .missing, ← freshRunId, Units.usualRoom⟩
  match Command.run world line with
  | .error breakdown =>
    IO.eprintln breakdown.message
    return 1
  | .ok result =>
    for text in result.outputLines (← (← IO.getStdout).isTty) do
      IO.println text
    for text in result.errorLines (← (← IO.getStderr).isTty) do
      IO.eprintln text
    return result.exit.toUInt32

end UnitCheck.Program

def main (line : List String) : IO UInt32 := UnitCheck.Program.run line
