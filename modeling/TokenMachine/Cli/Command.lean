/-
  TokenMachine.Cli.Command — what a command line does.

  A command line either has its report at once, or is a plan that waits for the text
  of one file. A report is what goes to standard output and standard error, and the
  exit code.
-/

import TokenMachine.Cli.Args
import TokenMachine.Diagnostic.Render
import TokenMachine.Listing.Render
import TokenMachine.Pipeline

namespace TokenMachine.Cli

structure Report where
  stdout : String := ""
  stderr : String := ""
  exitCode : UInt8 := 0
  deriving DecidableEq, Repr

/-- Why a file gave no text. -/
inductive FileError where
  | notFound
  | permissionDenied
  | invalidText
  | other (description : String)
  deriving DecidableEq, Repr

def FileError.message (path : String) : FileError → String
  | notFound => s!"cannot find file '{path}'"
  | permissionDenied => s!"permission denied reading '{path}'"
  | invalidText => s!"'{path}' contains invalid UTF-8 data"
  | other description => s!"error reading '{path}': {description}"

/-- How a command works on the text of its file; `terminal` says whether standard error is one. -/
abbrev TextCommand := (terminal : Bool) → (text : String) → Report

inductive Plan where
  | done (report : Report)
  | withFile (path : String) (act : TextCommand)

/-- The report, given the text of the file that the plan names. -/
def Plan.finish (plan : Plan) (terminal : Bool) (read : Except FileError String) : Report :=
  match plan with
  | .done report => report
  | .withFile path act =>
    match read with
    | .ok text => act terminal text
    | .error e => { stderr := e.message path ++ "\n", exitCode := 1 }

def version : String := "0.1.0-alpha.1"

def lines (ls : List String) : String := String.join (ls.map (· ++ "\n"))

def usage : String := lines
  ["Opal - a token-stream machine for a small S-expression language",
   "",
   "Usage: opal <command> [options]",
   "",
   "Commands:",
   "  run <file.opal>      Compile and run an Opal program",
   "  exec <file.ops>      Verify and run an opcode listing",
   "  tokens <file.opal>   Compile and print the opcode listing",
   "  read <file.opal>     Print the desugared forms",
   "  explain <code>       Explain an error code (e.g., E6008)",
   "  help                 Show this help message",
   "  version              Show version information",
   "",
   "Run options:",
   "  --max-depth=<N>      Call depth limit (default: 10000)",
   "  --profile            Print evaluation counters to stderr",
   "",
   "Environment:",
   "  OPAL_LOG             Tracing filter, e.g. opal_eval=debug (falls back to RUST_LOG)",
   "",
   "Examples:",
   "  opal run fib.opal",
   "  opal run fib.opal --max-depth=100000 --profile",
   "  opal tokens fib.opal > fib.ops",
   "  opal exec fib.ops"]

/-! ## The commands that read a file -/

/-- Report an error on the text it is about. -/
def failure (path : String) (terminal : Bool) (text : String) (e : PipelineError) : Report where
  stderr := e.toDiagnostic.render (ColorMode.auto.enabled terminal) (some (.ofText path text))
  exitCode := 1

/-- Run the program that `build` makes of a text. -/
def evaluate (build : String → Except PipelineError Program) (path : String)
    (options : RunOptions) : TextCommand := fun terminal text =>
  match build text with
  | .error e => failure path terminal text e
  | .ok program =>
    let config : Config := match options.maxDepth with
      | some maxCallDepth => { maxCallDepth }
      | none => {}
    let execution := program.run config
    let stdout := lines execution.printed
    match execution.result with
    | .ok outcome =>
      { stdout, stderr := if options.profile then lines [outcome.counters.report] else "" }
    | .error e => { failure path terminal text (.run e) with stdout }

def showTokens (path : String) : TextCommand := fun terminal text =>
  match Program.ofSource text with
  | .ok program => { stdout := Listing.render program }
  | .error e => failure path terminal text e

def showForms (path : String) : TextCommand := fun terminal text =>
  match Form.read text with
  | .ok forms => { stdout := lines ((Form.desugarItems forms).map Form.render) }
  | .error e => failure path terminal text (.read e)

/-! ## Command lines -/

def explain (code : String) : Report :=
  match ErrorCode.ofText? code with
  | some code => { stdout := lines [s!"{code.text}: {code.description}"] }
  | none =>
    { stderr := lines
        [s!"Unknown error code: {code}",
         "",
         "Codes have the format EXXXX where X is a digit.",
         "Examples: E0001, E1003, E6008"]
      exitCode := 1 }

/-- The last component of a path, if that is a name. -/
def fileName? (path : List Char) : Option (List Char) :=
  let parts := (path.splitOn '/').filter fun part => part != [] && part != ['.']
  parts.getLast?.filter (· != ['.', '.'])

/-- What follows the last point of a file's name, if the point is not its first character. -/
def extension? (path : List Char) : Option (List Char) := do
  let name ← fileName? path
  let reversed := name.reverse
  let stem := (reversed.dropWhile (· != '.')).drop 1
  if stem.isEmpty then none else some (reversed.takeWhile (· != '.')).reverse

/-- Whether a path alone means to run it. -/
def isSourcePath (path : String) : Bool :=
  (extension? path.toList).map (·.map Char.toLower) == some "opal".toList

def runPlan (command : String) (build : String → Except PipelineError Program)
    (args : List String) : Plan :=
  match RunArgs.parse args with
  | .ok parsed => .withFile parsed.path (evaluate build parsed.path parsed.options)
  | .error e =>
    .done
      { stderr := lines
          [s!"error: {e.message}",
           s!"Usage: opal {command} <file> [--max-depth=N] [--profile]"]
        exitCode := 1 }

/-- A command with one argument; what follows it is not looked at. -/
def onePlan (usageLines : List String) (plan : String → Plan) : List String → Plan
  | [] => .done { stderr := lines usageLines, exitCode := 1 }
  | arg :: _ => plan arg

def Plan.ofArgs : List String → Plan
  | [] => .done { stdout := usage }
  | command :: args =>
    match command with
    | "run" => runPlan command Program.ofSource args
    | "exec" => runPlan command Program.ofListing args
    | "tokens" =>
      onePlan ["Usage: opal tokens <file.opal>"] (fun path => .withFile path (showTokens path)) args
    | "read" =>
      onePlan ["Usage: opal read <file.opal>"] (fun path => .withFile path (showForms path)) args
    | "--explain" | "explain" =>
      onePlan ["Usage: opal explain <ERROR_CODE>", "Example: opal explain E6008"]
        (fun code => .done (explain code)) args
    | "help" | "--help" | "-h" => .done { stdout := usage }
    | "version" | "--version" | "-V" => .done { stdout := lines [s!"Opal {version}"] }
    | _ =>
      if isSourcePath command then
        .withFile command (evaluate Program.ofSource command {})
      else
        .done
          { stdout := usage
            stderr := lines [s!"Unknown command: {command}", ""]
            exitCode := 1 }

end TokenMachine.Cli
