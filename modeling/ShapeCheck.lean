import ShapeCheck.Binary64
import ShapeCheck.Check.Basic
import ShapeCheck.Check.Program
import ShapeCheck.Check.Terms
import ShapeCheck.Check.Types
import ShapeCheck.CommandLine
import ShapeCheck.Config
import ShapeCheck.Context
import ShapeCheck.Directory
import ShapeCheck.Entries
import ShapeCheck.Error
import ShapeCheck.Error.Excerpt
import ShapeCheck.Inference
import ShapeCheck.Main
import ShapeCheck.Numeral
import ShapeCheck.Parse.Cursor
import ShapeCheck.Parse.Program
import ShapeCheck.Parse.Rules
import ShapeCheck.Parse.Terms
import ShapeCheck.Parse.Types
import ShapeCheck.Path
import ShapeCheck.Position
import ShapeCheck.Prelude
import ShapeCheck.Scope
import ShapeCheck.Text.Bytes
import ShapeCheck.Text.Classes
import ShapeCheck.Text.Join
import ShapeCheck.Text.Lines
import ShapeCheck.Text.Printable
import ShapeCheck.Text.Quoted
import ShapeCheck.Text.Space
import ShapeCheck.Token
import ShapeCheck.Token.Lexer
import ShapeCheck.Token.Literal
import ShapeCheck.Token.Scanner
import ShapeCheck.Trail
import ShapeCheck.Tree
import ShapeCheck.Tree.Imports
import ShapeCheck.Tree.Printer
import ShapeCheck.Ty.Basic
import ShapeCheck.Ty.Placeholder
import ShapeCheck.Ty.Printer
import ShapeCheck.Ty.Subtype
import ShapeCheck.Workspace
import ShapeCheck.Proofs.Steps
import ShapeCheck.Proofs.Walk
import ShapeCheck.Proofs.Growth
import ShapeCheck.Proofs.Parsed
import ShapeCheck.Proofs.Cycles
import ShapeCheck.Proofs.Congruence
import ShapeCheck.Proofs.Contract
import ShapeCheck.Proofs.Paths
import ShapeCheck.Proofs.Transparency
import ShapeCheck.Proofs.Leaves
import ShapeCheck.Proofs.Discipline
import ShapeCheck.Proofs.Failure
import ShapeCheck.Proofs.Hygiene
import ShapeCheck.Proofs.Readable
import ShapeCheck.Proofs.Reading
import ShapeCheck.Proofs.RoundTrip
import ShapeCheck.Proofs.Frame
import ShapeCheck.Proofs.Held
import ShapeCheck.Proofs.Retired
import ShapeCheck.Proofs.Levels
import ShapeCheck.Proofs.Once
import ShapeCheck.Proofs.Places
import ShapeCheck.Proofs.Total
import ShapeCheck.Proofs.Mirror
import ShapeCheck.Proofs.Rerun
import ShapeCheck.Proofs.Unplaced
import ShapeCheck.Proofs.Annotation
import ShapeCheck.Proofs.Display
import ShapeCheck.Proofs.FailedParts
import ShapeCheck.Proofs.Since
import ShapeCheck.Proofs.AddedErrors
import ShapeCheck.Proofs.Ignoring
import ShapeCheck.Proofs.Answering
import ShapeCheck.Proofs.Confinement
import ShapeCheck.Proofs.Founded
import ShapeCheck.Proofs.DepthLimit
import ShapeCheck.Proofs.Matching
import ShapeCheck.Proofs.Tandem
import ShapeCheck.Proofs.Unnamed
import ShapeCheck.Proofs.Lexing
import ShapeCheck.Proofs.Likeness
import ShapeCheck.Proofs.MatchingTokens
import ShapeCheck.Proofs.Hosts
import ShapeCheck.Proofs.Located
import ShapeCheck.Proofs.ParseCongruence
import ShapeCheck.Proofs.ParseLimit
import ShapeCheck.Proofs.SpanTree
import ShapeCheck.Proofs.Yields
import ShapeCheck.Proofs.Spans
import ShapeCheck.Proofs.Pieces
import ShapeCheck.Proofs.Tiling
import ShapeCheck.Proofs.Newline
import ShapeCheck.Proofs.Loops
import ShapeCheck.Proofs.Seam
import ShapeCheck.Proofs.Joining
import ShapeCheck.Proofs.Depth
import ShapeCheck.Proofs.Separation
import ShapeCheck.Proofs.Calls
import ShapeCheck.Proofs.Standing
import ShapeCheck.Proofs.Subtyping
import ShapeCheck.Proofs.Values
import ShapeCheck.Proofs.Instances
import ShapeCheck.Proofs.Settling
import ShapeCheck.Proofs.Reshaping
import ShapeCheck.Proofs.Literals
import ShapeCheck.Proofs.Leafwise
import ShapeCheck.Proofs.Acceptance
import ShapeCheck.Proofs.Renumbering
import ShapeCheck.Proofs.Resolution
import ShapeCheck.Proofs.Lines
import ShapeCheck.Proofs.Caret
import ShapeCheck.Proofs.ByName
import ShapeCheck.Proofs.TextFaults
import ShapeCheck.Proofs.Marks
import ShapeCheck.Proofs.EntryReads
