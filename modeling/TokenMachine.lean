import TokenMachine.Main
import TokenMachine.Output
import TokenMachine.Token.Render
import TokenMachine.Proofs.Cli.Arguments
import TokenMachine.Proofs.Decimal.Grammar
import TokenMachine.Proofs.Diagnostic.Colour
import TokenMachine.Proofs.Diagnostic.Positions
import TokenMachine.Proofs.Form.Joining
import TokenMachine.Proofs.Form.Literals
import TokenMachine.Proofs.Form.Patterns
import TokenMachine.Proofs.Form.Printing
import TokenMachine.Proofs.Form.Reading
import TokenMachine.Proofs.Listing.Behaviour
import TokenMachine.Proofs.Listing.Blocks
import TokenMachine.Proofs.Listing.Layout
import TokenMachine.Proofs.Listing.Order
import TokenMachine.Proofs.Listing.Quoted
import TokenMachine.Proofs.Machine.Accounting
import TokenMachine.Proofs.Machine.Branches
import TokenMachine.Proofs.Machine.Isolation
import TokenMachine.Proofs.Machine.Limit
import TokenMachine.Proofs.Machine.Location
import TokenMachine.Proofs.Machine.Skipping
import TokenMachine.Proofs.Machine.StackBase
import TokenMachine.Proofs.Machine.Termination
import TokenMachine.Proofs.Script.Language
import TokenMachine.Proofs.Script.Nesting
import TokenMachine.Proofs.Script.Order
import TokenMachine.Proofs.Semantics.Compilation
import TokenMachine.Proofs.Semantics.Pure
import TokenMachine.Proofs.Semantics.ShortCall
import TokenMachine.Proofs.Spans
import TokenMachine.Proofs.Stream.Verdict
