import ReplEngine.Engine.PrintBuffer
import ReplEngine.Engine.Scripted
import ReplEngine.Session.Registry
import ReplEngine.Proofs.Binary.Exact
import ReplEngine.Proofs.Binary.ClassFile
import ReplEngine.Proofs.Binary.Formats
import ReplEngine.Proofs.Syntax.Cursor
import ReplEngine.Proofs.Syntax.Expressions
import ReplEngine.Proofs.Syntax.Units
import ReplEngine.Proofs.Lexing.Pieces
import ReplEngine.Proofs.Lexing.Scans
import ReplEngine.Proofs.Lexing.Starts
import ReplEngine.Proofs.Syntax.Moved
import ReplEngine.Proofs.Lexing.Lines
import ReplEngine.Proofs.Splitter.UnitEnd
import ReplEngine.Proofs.Splitter.Units
import ReplEngine.Proofs.Typing.Reports
import ReplEngine.Proofs.Typing.Rules
import ReplEngine.Proofs.Typing.Accepted
import ReplEngine.Proofs.Typing.Members
import ReplEngine.Proofs.ClassSpace.Resolution
import ReplEngine.Proofs.Evaluation.Agreement
import ReplEngine.Proofs.Evaluation.Safe
import ReplEngine.Proofs.Evaluation.Calls
import ReplEngine.Proofs.Evaluation.Soundness
import ReplEngine.Proofs.Evaluation.Running
import ReplEngine.Proofs.ClassSpace.History
import ReplEngine.Proofs.Engine.Rounds
import ReplEngine.Proofs.Engine.Turns
import ReplEngine.Proofs.Engine.Answers
import ReplEngine.Proofs.Splitter.Behind
import ReplEngine.Proofs.Engine.HeldInput
import ReplEngine.Proofs.Evaluation.Quiet
import ReplEngine.Proofs.Evaluation.Tracing
import ReplEngine.Proofs.Evaluation.Steps
import ReplEngine.Proofs.Evaluation.CallPath
import ReplEngine.Proofs.Evaluation.Exceptions
import ReplEngine.Proofs.Evaluation.StackTraces
import ReplEngine.Proofs.Typing.Uses
import ReplEngine.Proofs.Typing.Met
import ReplEngine.Proofs.Engine.Redeclaring
import ReplEngine.Proofs.Throwable.Rebuilding
import ReplEngine.Proofs.Syntax.Sizes
import ReplEngine.Proofs.ClassSpace.Newest
import ReplEngine.Proofs.Engine.Sessions
import ReplEngine.Proofs.Engine.UnitHistory
import ReplEngine.Proofs.Engine.KnownTypes
import ReplEngine.Proofs.Engine.KeptValues
import ReplEngine.Proofs.Engine.Installing
import ReplEngine.Proofs.Engine.ClassNames
import ReplEngine.Proofs.Evaluation.Dispatch
import ReplEngine.Proofs.Engine.Dispatch
import ReplEngine.Proofs.ClassSpace.Lockstep
import ReplEngine.Proofs.Evaluation.Alike
import ReplEngine.Proofs.Typing.Renaming
import ReplEngine.Proofs.Evaluation.Lockstep
import ReplEngine.Proofs.Engine.Lockstep
import ReplEngine.Proofs.Engine.Rejecting
import ReplEngine.Proofs.Splitter.Lossless
import ReplEngine.Proofs.Evaluation.Attempts
import ReplEngine.Proofs.Evaluation.Termination
import ReplEngine.Proofs.Evaluation.Motion
import ReplEngine.Proofs.Engine.Printing
import ReplEngine.Proofs.Engine.Closing
import ReplEngine.Proofs.Session.Replies
import ReplEngine.Proofs.Session.Registry
import ReplEngine.Proofs.Session.Handles
import ReplEngine.Proofs.Session.Closing
import ReplEngine.Proofs.Session.Isolation
import ReplEngine.Proofs.ClassSpace.Batches
import ReplEngine.Proofs.ClassSpace.SearchOrder
import ReplEngine.Proofs.ClassSpace.Tiers
import ReplEngine.Proofs.Lexing.Literals
import ReplEngine.Proofs.Engine.ShownValues
import ReplEngine.Proofs.Lexing.Boundaries
import ReplEngine.Proofs.Lexing.Rendering
import ReplEngine.Proofs.Syntax.Spans
import ReplEngine.Proofs.Syntax.Positions
import ReplEngine.Proofs.Syntax.Refusals
import ReplEngine.Proofs.Engine.Positions
import ReplEngine.Proofs.Lexing.LineLookup
import ReplEngine.Proofs.Diagnostic.Marking
import ReplEngine.Proofs.Throwable.ShownTraces
import ReplEngine.Proofs.Engine.Texts
import ReplEngine.Proofs.Lexing.NextLine
import ReplEngine.Proofs.Splitter.Completing
import ReplEngine.Proofs.Engine.Completing
import ReplEngine.Proofs.Lexing.Patterns
import ReplEngine.Proofs.Lexing.LongestMatch
import ReplEngine.Proofs.Evaluation.Objects
import ReplEngine.Proofs.Engine.Identities
