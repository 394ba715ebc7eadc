/-
  TokenMachine.Pipeline — from text to a program.

  Source text is read, desugared, elaborated and lowered; a listing is assembled and
  verified. A failure of any phase, the run included, is one error with one
  diagnostic.
-/

import TokenMachine.Form.Desugar
import TokenMachine.Form.Reader
import TokenMachine.Listing.Assemble
import TokenMachine.Machine.Run
import TokenMachine.Script.Elaborate
import TokenMachine.Script.Lower
import TokenMachine.Verify

namespace TokenMachine

inductive PipelineError where
  | read (e : ReadError)
  | compile (e : CompileError)
  | assemble (e : Listing.AssembleError)
  | verify (e : VerifyError)
  | run (e : RunError)
  deriving DecidableEq, Repr

def PipelineError.toDiagnostic : PipelineError → Diagnostic
  | read e => e.toDiagnostic
  | compile e => e.toDiagnostic
  | assemble e => e.toDiagnostic
  | verify e => e.toDiagnostic
  | run e => e.toDiagnostic

namespace Program

/-- The program that forms spell, as they are. -/
def ofForms (forms : List Form) : Except CompileError Program :=
  (Script.ofForms forms).map Script.lower

/-- The program of a source text. -/
def ofSource (source : String) : Except PipelineError Program := do
  let forms ← (Form.read source).mapError .read
  (ofForms (Form.desugarItems forms)).mapError .compile

/-- The verified program of a listing. -/
def ofListing (listing : String) : Except PipelineError Program := do
  let program ← (Listing.assemble listing).mapError .assemble
  program.verify.mapError .verify
  .ok program

end Program

end TokenMachine
