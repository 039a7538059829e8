import OpposingKeys.Replay

/-!
# The command line

`main` replays a script over a table file. It reads the file and prints, with the log off; the rest is
`replay`.
-/

namespace OpposingKeys.Replay

set_option autoImplicit false

/-- The faults of reading that a replay reports in its own words. The system's number of a fault may
come with a minus sign. -/
def storageFault? : IO.Error → Option StorageFault
  | .noFileOrDirectory .. => some .notFound
  | .inappropriateType _ code _ =>
    let number := if code < 0x80000000 then code else 0 - code
    if number = 20 then some .notADirectory
    else if number = 21 then some .isADirectory
    else none
  | _ => none

def readBytes (path : String) : IO (Except StorageFault (List UInt8)) := do
  try
    let bytes ← IO.FS.readBinFile path
    return .ok bytes.toList
  catch e =>
    match storageFault? e with
    | some fault => return .error fault
    | none => throw e

end OpposingKeys.Replay

open OpposingKeys.Replay in
def main (args : List String) : IO UInt32 := do
  let arguments := Arguments.of args
  let transcript := replay (← readBytes arguments.tablePath) arguments.script.toList
  IO.print transcript.output
  IO.eprint transcript.errors
  return transcript.exitCode
