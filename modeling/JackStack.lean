import JackStack.Action
import JackStack.Batch
import JackStack.CommandLine.Arguments
import JackStack.CommandLine.Request
import JackStack.CommandLine.Run
import JackStack.Comment
import JackStack.Compile
import JackStack.Compile.Agenda
import JackStack.Compile.Code
import JackStack.Compile.Goal
import JackStack.Compile.Perform
import JackStack.Compile.Session
import JackStack.Error
import JackStack.Event
import JackStack.Files.Path
import JackStack.Files.Tree
import JackStack.Machine.Basic
import JackStack.Machine.Load
import JackStack.Machine.Run
import JackStack.Main
import JackStack.Routine
import JackStack.Text.Blank
import JackStack.Text.Decimal
import JackStack.Text.Hidden
import JackStack.Text.Line
import JackStack.Text.Position
import JackStack.Text.Quoted
import JackStack.Text.Utf8
import JackStack.Token
import JackStack.Token.Listing
import JackStack.Token.Lookahead
import JackStack.Token.Reader
import JackStack.Token.Scan
import JackStack.Variable
import JackStack.Vm.Command
import JackStack.Vm.Reading
import JackStack.Vm.Sink
import JackStack.Vm.Writer
import JackStack.Proofs.Preservation
import JackStack.Proofs.Discipline
import JackStack.Proofs.Operands
import JackStack.Proofs.Decoding
import JackStack.Proofs.Shape
import JackStack.Proofs.Following
import JackStack.Proofs.Spelling
import JackStack.Proofs.Completion
import JackStack.Proofs.Course
import JackStack.Proofs.Viability
import JackStack.Proofs.Wording
import JackStack.Proofs.Constants
import JackStack.Proofs.Blanking
import JackStack.Proofs.Independence
import JackStack.Proofs.Skipping
import JackStack.Proofs.Stopping
import JackStack.Proofs.ErrorLine
import JackStack.Proofs.Agreement
import JackStack.Proofs.Truncation
import JackStack.Proofs.Tiling
import JackStack.Proofs.Cells
import JackStack.Proofs.RoundTrip
import JackStack.Proofs.Footprint
import JackStack.Proofs.Building
import JackStack.Proofs.Paths
import JackStack.Proofs.Trees
import JackStack.Proofs.Directory
import JackStack.Proofs.Outputs
import JackStack.Proofs.Positions
import JackStack.Proofs.Returning
import JackStack.Proofs.Atomicity
import JackStack.Proofs.Activations
import JackStack.Proofs.History
import JackStack.Proofs.Markup
import JackStack.Proofs.Strings
import JackStack.Proofs.Isolation
import JackStack.Proofs.Residue
import JackStack.Proofs.Descent
import JackStack.Proofs.Literals
import JackStack.Proofs.Guards
