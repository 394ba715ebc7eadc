/-
  TokenMachine.Cli.Args — the arguments of the commands that run a program.

  A path and any number of flags, in any order. The last `--max-depth` counts. The
  first argument that fits nothing is the error; a missing path is one only after all
  arguments were taken.
-/

namespace TokenMachine.Cli

structure RunOptions where
  maxDepth : Option Nat := none
  profile : Bool := false
  deriving DecidableEq, Repr

structure RunArgs where
  path : String
  options : RunOptions
  deriving DecidableEq, Repr

inductive ArgError where
  | invalidDepth (value : String)
  | unknownOption (arg : String)
  | unexpectedArgument (arg : String)
  | missingPath
  deriving DecidableEq, Repr

def ArgError.message : ArgError → String
  | invalidDepth value => s!"invalid --max-depth value '{value}'"
  | unknownOption arg => s!"unknown option '{arg}'"
  | unexpectedArgument arg => s!"unexpected argument '{arg}'"
  | missingPath => "missing file path"

/-- One more than the largest count. -/
def countLimit : Nat := 18446744073709551616

/-- A whole number of 64 bits: digits after at most one `+`. -/
def parseCount? (cs : List Char) : Option Nat :=
  let ds := if cs.head? = some '+' then cs.tail else cs
  if ds ≠ [] ∧ ds.all Char.isDigit then
    let n := ds.foldl (fun n d => 10 * n + (d.toNat - '0'.toNat)) 0
    if n < countLimit then some n else none
  else none

/-- One argument. -/
inductive Arg where
  | maxDepth (depth : Nat)
  | profile
  | path (path : String)
  deriving DecidableEq, Repr

def depthFlag : List Char := "--max-depth=".toList

def Arg.parse (arg : String) : Except ArgError Arg :=
  let cs := arg.toList
  if depthFlag.isPrefixOf cs then
    let value := cs.drop depthFlag.length
    match parseCount? value with
    | some depth => .ok (.maxDepth depth)
    | none => .error (.invalidDepth (String.ofList value))
  else if arg = "--profile" then .ok .profile
  else if cs.head? = some '-' then .error (.unknownOption arg)
  else .ok (.path arg)

/-- The arguments taken so far. -/
structure Taken where
  path : Option String := none
  options : RunOptions := {}
  deriving DecidableEq, Repr

def Taken.add (t : Taken) (arg : String) : Except ArgError Taken := do
  match ← Arg.parse arg with
  | .maxDepth depth => .ok { t with options := { t.options with maxDepth := some depth } }
  | .profile => .ok { t with options := { t.options with profile := true } }
  | .path path =>
    if t.path.isSome then .error (.unexpectedArgument arg) else .ok { t with path := some path }

def Taken.finish (t : Taken) : Except ArgError RunArgs :=
  match t.path with
  | some path => .ok ⟨path, t.options⟩
  | none => .error .missingPath

def RunArgs.parse (args : List String) : Except ArgError RunArgs := do
  (← args.foldlM Taken.add {}).finish

end TokenMachine.Cli
