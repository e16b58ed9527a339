import LineBasic.Main
import LineBasic.Value.Plain
import LineBasic.Proofs.Tree.Induction
import LineBasic.Proofs.Tree.Written
import LineBasic.Proofs.Tree.Grouping
import LineBasic.Proofs.Tree.Resolution
import LineBasic.Proofs.Tree.Rejection
import LineBasic.Proofs.Tree.Printing
import LineBasic.Proofs.Evaluation.Balance
import LineBasic.Proofs.Evaluation.Currying
import LineBasic.Proofs.Evaluation.Operands
import LineBasic.Proofs.Evaluation.Scoping
import LineBasic.Proofs.Session.Reachable
import LineBasic.Proofs.Safety.Execution
import LineBasic.Proofs.Run.Loops
import LineBasic.Proofs.Run.Past
import LineBasic.Proofs.Run.Failures
import LineBasic.Proofs.Run.Data
import LineBasic.Proofs.Run.Typed
import LineBasic.Proofs.Run.Returns
import LineBasic.Proofs.Run.Straight
import LineBasic.Proofs.Run.Subroutines
import LineBasic.Proofs.Tree.Attribution
import LineBasic.Proofs.Dialogue.Confirmation
import LineBasic.Proofs.Writes
import LineBasic.Proofs.Writes.Builtins
import LineBasic.Proofs.Session.Constancy
import LineBasic.Proofs.Program.Renumbering
import LineBasic.Proofs.FileStore.Confinement
import LineBasic.Proofs.Session.Assigned
import LineBasic.Proofs.Tree.Quoting
import LineBasic.Proofs.Tree.BareCalls
import LineBasic.Proofs.Tree.Conditions
import LineBasic.Proofs.Token.Slices
import LineBasic.Proofs.Token.Rejoining
import LineBasic.Proofs.Token.Remarks
import LineBasic.Proofs.Token.RemarkLines
import LineBasic.Proofs.Tree.Remarks
import LineBasic.Proofs.Dialogue.Budget
import LineBasic.Proofs.Dialogue.Entering
import LineBasic.Proofs.Tree.Nesting
import LineBasic.Proofs.Program.Renaming
import LineBasic.Proofs.Evaluation.Substrings
import LineBasic.Proofs.Evaluation.Elements
import LineBasic.Proofs.Evaluation.Bits
import LineBasic.Proofs.Evaluation.Composition
import LineBasic.Proofs.Evaluation.Monads
import LineBasic.Proofs.Run.Places
import LineBasic.Proofs.Run.Polling
import LineBasic.Proofs.Run.TypedJump
import LineBasic.Proofs.Run.LoopHeads
import LineBasic.Proofs.Evaluation.LineEnds
import LineBasic.Proofs.Evaluation.Fixing
import LineBasic.Proofs.Token.Fusion
import LineBasic.Proofs.Tree.Positional
import LineBasic.Proofs.Tree.Spelling
import LineBasic.Proofs.Tree.Handing
