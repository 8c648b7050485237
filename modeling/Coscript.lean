import Coscript.Data.IdSet
import Coscript.Decimal.Layout
import Coscript.Grammar.Document
import Coscript.Grammar.Encoding
import Coscript.Automaton.Collection
import Coscript.Table.Builder
import Coscript.Script.Grammar
import Coscript.Table.Encoding
import Coscript.Parse.Configuration
import Coscript.Bytecode.Assembler
import Coscript.Machine.Error
import Coscript.Machine.Operator
import Coscript.Machine.Scope
import Coscript.Machine.Activation
import Coscript.Machine.Execution
import Coscript.Script.Elaboration
import Coscript.Script.Generation
import Coscript.Scheduler.Basic
import Coscript.Scheduler.Setup
import Coscript.Command.Host
import Coscript.Command.Options
import Coscript.Command.Session
import Coscript.Main
import Coscript.Proofs.Containers
import Coscript.Proofs.Grammar
import Coscript.Proofs.Derivation
import Coscript.Proofs.FirstFollow
import Coscript.Proofs.Closure
import Coscript.Proofs.Collection
import Coscript.Proofs.Table
import Coscript.Proofs.Merging
import Coscript.Proofs.Covering
import Coscript.Proofs.Parsing
import Coscript.Proofs.Completeness
import Coscript.Proofs.ClosureCalls
import Coscript.Proofs.Viable
import Coscript.Proofs.Reduced
import Coscript.Proofs.Grounding
import Coscript.Proofs.Paths
import Coscript.Proofs.Termination
import Coscript.Proofs.Documents
import Coscript.Proofs.Agreement
import Coscript.Proofs.Lexing
import Coscript.Proofs.Language
import Coscript.Proofs.Decoding
import Coscript.Proofs.InstructionBytes
import Coscript.Proofs.Layout
import Coscript.Proofs.ValidItems
import Coscript.Proofs.Conflicts
import Coscript.Proofs.Groups
import Coscript.Proofs.Hierarchy
import Coscript.Proofs.TableEntries
import Coscript.Proofs.Expansion
import Coscript.Proofs.Forms
import Coscript.Proofs.Tracking
import Coscript.Proofs.LookaheadTermination
import Coscript.Proofs.ErrorPosition
import Coscript.Proofs.Reductions
import Coscript.Proofs.Admissible
import Coscript.Proofs.Stepping
import Coscript.Proofs.Shapes
import Coscript.Proofs.Flow
import Coscript.Proofs.Safety
import Coscript.Proofs.Evaluation
import Coscript.Proofs.Scopes
import Coscript.Proofs.ScopeMoves
import Coscript.Proofs.Sessions
import Coscript.Proofs.Isolation
import Coscript.Proofs.Correctness
import Coscript.Proofs.Ambiguity
import Coscript.Proofs.FollowTermination
import Coscript.Proofs.Neighbours
import Coscript.Proofs.Assignments
import Coscript.Proofs.Phrases
import Coscript.Proofs.Acceptance
import Coscript.Proofs.Handles
import Coscript.Proofs.Cores
import Coscript.Proofs.ReachableStates
import Coscript.Proofs.Reading
import Coscript.Proofs.StoredTables
import Coscript.Proofs.DecodedTables
import Coscript.Proofs.Regrouping
import Coscript.Proofs.StoredGrammars
import Coscript.Proofs.Renaming
import Coscript.Proofs.Decisions
import Coscript.Proofs.Rebuilding
import Coscript.Proofs.ExpectedTokens
import Coscript.Proofs.Delays
import Coscript.Proofs.Suspension
import Coscript.Proofs.Threads
import Coscript.Proofs.ThreadLives
import Coscript.Proofs.RoundRobin
import Coscript.Proofs.Segmentation
import Coscript.Proofs.OperandTrees
import Coscript.Proofs.RuleSlots
import Coscript.Proofs.Faults
import Coscript.Proofs.Nodes
import Coscript.Proofs.Settling
import Coscript.Proofs.Compilability
import Coscript.Proofs.Bindings
import Coscript.Proofs.Patching
import Coscript.Proofs.Relexing
import Coscript.Proofs.WrittenGrammars
import Coscript.Proofs.PrintedGrammars
import Coscript.Proofs.BuiltTables
import Coscript.Proofs.Storability
import Coscript.Proofs.Convergence
import Coscript.Proofs.EntryOrder
