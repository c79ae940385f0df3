import ArrowCheck.Check.Failure
import ArrowCheck.Check.Report
import ArrowCheck.Check.Run
import ArrowCheck.Check.Stage
import ArrowCheck.Command.Options
import ArrowCheck.Command.Run
import ArrowCheck.Diagnostic.Basic
import ArrowCheck.Diagnostic.Render
import ArrowCheck.Json
import ArrowCheck.Main
import ArrowCheck.Numeric.Binary64
import ArrowCheck.Numeric.Decimal
import ArrowCheck.Numeric.Shortest
import ArrowCheck.Operator
import ArrowCheck.Source
import ArrowCheck.Span
import ArrowCheck.Text.Blank
import ArrowCheck.Text.Slice
import ArrowCheck.Token.Basic
import ArrowCheck.Token.Lexer
import ArrowCheck.Token.ParseError
import ArrowCheck.Token.Quoted
import ArrowCheck.Tree.Basic
import ArrowCheck.Tree.Json
import ArrowCheck.Tree.Names
import ArrowCheck.Tree.Parser
import ArrowCheck.Tree.Slots
import ArrowCheck.Ty
import ArrowCheck.Typing.Arena
import ArrowCheck.Typing.Fault
import ArrowCheck.Typing.Infer
import ArrowCheck.Typing.Operator
import ArrowCheck.Typing.Outcome
import ArrowCheck.Typing.Request
import ArrowCheck.Typing.Scope
import ArrowCheck.Typing.Session
import ArrowCheck.Typing.Unify
import ArrowCheck.WrittenType.Basic
import ArrowCheck.WrittenType.Parser
import ArrowCheck.Proofs.Substitution
import ArrowCheck.Proofs.Meaning
import ArrowCheck.Proofs.Ensures
import ArrowCheck.Proofs.Walks
import ArrowCheck.Proofs.Copies
import ArrowCheck.Proofs.Refinement
import ArrowCheck.Proofs.Unification
import ArrowCheck.Proofs.Sessions
import ArrowCheck.Proofs.Slots
import ArrowCheck.Proofs.Inference
import ArrowCheck.Proofs.Programs
import ArrowCheck.Proofs.Reachability
import ArrowCheck.Proofs.Specificity
import ArrowCheck.Proofs.Annotations
import ArrowCheck.Proofs.Stability
import ArrowCheck.Proofs.Polymorphism
import ArrowCheck.Proofs.Soundness
import ArrowCheck.Proofs.UnboundReports
import ArrowCheck.Proofs.NameUses
import ArrowCheck.Proofs.Grammar
import ArrowCheck.Proofs.Derivations
import ArrowCheck.Proofs.GroupLabels
import ArrowCheck.Proofs.Lexemes
import ArrowCheck.Proofs.WrittenTexts
import ArrowCheck.Proofs.Printing
import ArrowCheck.Proofs.Parsing
import ArrowCheck.Proofs.Spelling
import ArrowCheck.Proofs.ReadBack
import ArrowCheck.Proofs.RoundTrip
import ArrowCheck.Proofs.Shifts
import ArrowCheck.Proofs.SideBySide
import ArrowCheck.Proofs.TwinSessions
import ArrowCheck.Proofs.Isolation
import ArrowCheck.Proofs.Schemes
import ArrowCheck.Proofs.Valuations
import ArrowCheck.Proofs.Principality
import ArrowCheck.Proofs.TokenPlaces
import ArrowCheck.Proofs.Outlines
import ArrowCheck.Proofs.Places
import ArrowCheck.Proofs.LexemeClasses
import ArrowCheck.Proofs.Partition
import ArrowCheck.Proofs.Layout
import ArrowCheck.Proofs.DeclaredTexts
import ArrowCheck.Proofs.InferenceSteps
import ArrowCheck.Proofs.Lossiness
import ArrowCheck.Proofs.ErrorFlag
import ArrowCheck.Proofs.Locations
import ArrowCheck.Proofs.StatedGrammar
import ArrowCheck.Proofs.Acceptance
import ArrowCheck.Proofs.RoundingIntervals
import ArrowCheck.Proofs.NumberTexts
import ArrowCheck.Proofs.Readability
import ArrowCheck.Proofs.JsonTexts
import ArrowCheck.Proofs.Dumps
import ArrowCheck.Proofs.Inspections
import ArrowCheck.Proofs.Instances
import ArrowCheck.Proofs.Symmetry
import ArrowCheck.Proofs.ScopeFrames
import ArrowCheck.Proofs.LexErrors
import ArrowCheck.Proofs.Literals
import ArrowCheck.Proofs.ReturnBodies
import ArrowCheck.Proofs.ElementReports
import ArrowCheck.Proofs.LineTable
import ArrowCheck.Proofs.Underlines
import ArrowCheck.Proofs.StageRuns
import ArrowCheck.Proofs.Progress
import ArrowCheck.Proofs.DepthBounds
