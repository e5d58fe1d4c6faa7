import Treewalk.CommandLine.Directory
import Treewalk.Main
import Treewalk.Proofs.Grammar.Exact
import Treewalk.Proofs.Scope.Reached
import Treewalk.Store.Summary
import Treewalk.Proofs.Plain.Cells
import Treewalk.Proofs.Run.Restored
import Treewalk.Proofs.Source.Rules
import Treewalk.Proofs.Source.Munch
import Treewalk.Proofs.Source.Items
import Treewalk.Proofs.Source.Written
import Treewalk.Proofs.Plain.Linked
import Treewalk.Proofs.Plain.Calls
import Treewalk.Proofs.Plain.Faithful
import Treewalk.Proofs.Scope.Renamed
import Treewalk.Proofs.Scope.Covered
import Treewalk.Proofs.Scope.Distinct
import Treewalk.Proofs.Scope.Renaming
import Treewalk.Proofs.Scope.Renamable
import Treewalk.Proofs.Plain.Image
import Treewalk.Proofs.Scope.Detour
import Treewalk.Proofs.Plain.Unseen
import Treewalk.Proofs.Source.Seam
import Treewalk.Proofs.Grammar.Lines
import Treewalk.Proofs.Batches.Compiled
import Treewalk.Proofs.Batches.Moved
import Treewalk.Proofs.Batches.Composed
import Treewalk.Proofs.Scope.Rules
import Treewalk.Proofs.Scope.Errors
import Treewalk.Proofs.Scope.Enforced
import Treewalk.Proofs.Run.Carrier
import Treewalk.Proofs.Run.Steps
import Treewalk.Proofs.Run.Calls
import Treewalk.Proofs.Store.Region
import Treewalk.Proofs.Run.Halting
import Treewalk.Proofs.Batches.Renumbered
import Treewalk.Proofs.Batches.Rejected
import Treewalk.Proofs.Run.Upkeep
import Treewalk.Proofs.Objects.Chronicle
import Treewalk.Proofs.Objects.Ancestry
import Treewalk.Proofs.Objects.Attends
import Treewalk.Proofs.Objects.Attended
import Treewalk.Proofs.Objects.InStep
import Treewalk.Proofs.Objects.Growth
import Treewalk.Proofs.Objects.Accounts
import Treewalk.Proofs.Objects.Receivers
import Treewalk.Proofs.Objects.Properties
import Treewalk.Proofs.Objects.Instances
import Treewalk.Proofs.Objects.Constructors
import Treewalk.Proofs.Loops.ScopeFree
import Treewalk.Proofs.Loops.Direct
import Treewalk.Proofs.Loops.Desugared
import Treewalk.Proofs.Grammar.Positions
import Treewalk.Proofs.Grammar.Settled
import Treewalk.Proofs.Grammar.Bounded
import Treewalk.Proofs.Grammar.Phrases
import Treewalk.Proofs.Grammar.Heads
import Treewalk.Proofs.Grammar.Viable
import Treewalk.Proofs.Grammar.ViableExpr
import Treewalk.Proofs.Grammar.ViableStmt
import Treewalk.Proofs.Grammar.Earliest
import Treewalk.Proofs.Source.Counted
import Treewalk.Proofs.Source.Characters
import Treewalk.Proofs.Batches.Single
import Treewalk.Proofs.Source.Fidelity
import Treewalk.Proofs.Run.Spares
import Treewalk.Proofs.Run.Returned
import Treewalk.Proofs.Objects.Kinds
import Treewalk.Proofs.Plain.Live
import Treewalk.Proofs.Batches.DeadCode
import Treewalk.Proofs.Run.Journal
import Treewalk.Proofs.Decimal.Value
import Treewalk.Proofs.Decimal.Shortest
import Treewalk.Proofs.Decimal.Nearest
import Treewalk.Proofs.Decimal.Bits
import Treewalk.Proofs.Decimal.ReadBack
import Treewalk.Proofs.Decimal.Numeral
import Treewalk.Proofs.Batches.Numbers
import Treewalk.Proofs.Store.Addressing
import Treewalk.Proofs.CommandLine.Stages
import Treewalk.Proofs.Text.Apart
import Treewalk.Proofs.Decimal.Figured
import Treewalk.Proofs.Text.Json
import Treewalk.Proofs.Text.Pretty
import Treewalk.Proofs.Tree.Parts
import Treewalk.Proofs.Tree.Dumped
import Treewalk.Proofs.Tree.Worded
import Treewalk.Proofs.Source.Spellings
import Treewalk.Proofs.Tree.Roles
import Treewalk.Proofs.Tree.Lexemes
import Treewalk.Proofs.Tree.Forms
import Treewalk.Proofs.Tree.Printed
import Treewalk.Proofs.Grammar.Ordered
import Treewalk.Proofs.Grammar.Placed
import Treewalk.Proofs.Grammar.Targets
import Treewalk.Proofs.Scope.Referenced
import Treewalk.Proofs.Batches.Tables
