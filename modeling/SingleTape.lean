import SingleTape.Files.Tree
import SingleTape.Machine.Call
import SingleTape.Main
import SingleTape.Proofs.Graph.Closed
import SingleTape.Proofs.Machine.Stepping
import SingleTape.Proofs.Attempt
import SingleTape.Proofs.Machine.Creation
import SingleTape.Proofs.Machine.Textbook
import SingleTape.Proofs.Tape.Padding
import SingleTape.Proofs.Machine.Refinement
import SingleTape.Proofs.Machine.Ending
import SingleTape.Proofs.Description.Format
import SingleTape.Proofs.Description.Matching
import SingleTape.Proofs.Description.Place
import SingleTape.Proofs.Description.Piece
import SingleTape.Proofs.Description.Rules
import SingleTape.Proofs.Description.Rows
import SingleTape.Proofs.Description.Parsing
import SingleTape.Proofs.Description.Checked
import SingleTape.Proofs.Description.Interpreter
import SingleTape.Proofs.Program.Compiling
import SingleTape.Proofs.Program.Meaning
import SingleTape.Proofs.Machine.Resetting
import SingleTape.Proofs.Graph.Counting
import SingleTape.Proofs.Graph.Log
import SingleTape.Proofs.Program.Loading
import SingleTape.Proofs.Library.Plan
import SingleTape.Proofs.Machine.Scanning
import SingleTape.Proofs.Library.Palindrome
import SingleTape.Proofs.Library.AdditionPlan
import SingleTape.Proofs.Library.Column
import SingleTape.Proofs.Library.Addition
import SingleTape.Proofs.Description.Reachable
import SingleTape.Proofs.Description.Requirements
import SingleTape.Proofs.Program.Alphabet
import SingleTape.Proofs.Program.Visiting
import SingleTape.Proofs.Machine.Renaming
import SingleTape.Proofs.Program.Renaming
import SingleTape.Proofs.Program.Reordering
import SingleTape.Proofs.Machine.Extending
import SingleTape.Proofs.Batch.Lines
import SingleTape.Proofs.Batch.Reporting
import SingleTape.Proofs.Machine.Budget
import SingleTape.Proofs.Batch.Showing
import SingleTape.Proofs.Program.Warning
import SingleTape.Proofs.Machine.Transcript
import SingleTape.Proofs.Description.Spacing
import SingleTape.Proofs.Description.Derivation
import SingleTape.Proofs.Description.Continuing
import SingleTape.Proofs.Description.Expecting
import SingleTape.Proofs.Description.Trying
import SingleTape.Proofs.Description.LineEnds
import SingleTape.Proofs.Json.Reading
import SingleTape.Proofs.Json.Record
import SingleTape.Proofs.Library.Parity
import SingleTape.Proofs.Json.RoundTrip
import SingleTape.Proofs.Batch.Report
