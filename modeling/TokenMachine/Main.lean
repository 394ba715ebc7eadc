/-
  TokenMachine.Main — the command line program.
-/

import TokenMachine.Cli.Command

open TokenMachine.Cli

/-- The text of a file. -/
def readText (path : String) : IO (Except FileError String) := do
  try
    match String.fromUTF8? (← IO.FS.readBinFile path) with
    | some text => return .ok text
    | none => return .error .invalidText
  catch
    | .noFileOrDirectory .. => return .error .notFound
    | .permissionDenied .. => return .error .permissionDenied
    | .inappropriateType .. => return .error (.other "Is a directory (os error 21)")
    | e => return .error (.other (toString e))

def main (args : List String) : IO UInt32 := do
  let stderr ← IO.getStderr
  let plan := Plan.ofArgs args
  let text ← match plan with
    | .done _ => pure (.ok "")
    | .withFile path _ => readText path
  let report := plan.finish (← stderr.isTty) text
  IO.print report.stdout
  stderr.putStr report.stderr
  return report.exitCode.toUInt32
