import GeoScript.Decimal.Reader
import GeoScript.Geometry.Wkt
import GeoScript.Geometry.GeoJson
import GeoScript.Token.Lexer
import GeoScript.Expr.Parser
import GeoScript.Number
import GeoScript.Value.Basic
import GeoScript.Heap.Collect
import GeoScript.Pipeline
import GeoScript.Value.Access
import GeoScript.Value.Arithmetic
import GeoScript.Library.Registry
import GeoScript.Eval
import GeoScript.Host
import GeoScript.Command
import GeoScript.Main
import GeoScript.Proofs.Exactness
import GeoScript.Proofs.Transparency
import GeoScript.Proofs.Lexing
import GeoScript.Proofs.Lexemes
import GeoScript.Proofs.Layout
import GeoScript.Proofs.Machines
import GeoScript.Proofs.Filled
import GeoScript.Proofs.Blank
import GeoScript.Proofs.Correspondence
import GeoScript.Proofs.Interpretation
import GeoScript.Proofs.Recording
import GeoScript.Proofs.CallLimit
import GeoScript.Proofs.WellKnownText
import GeoScript.Proofs.CallTrees
import GeoScript.Proofs.Parallel
import GeoScript.Proofs.PairMemory
import GeoScript.Proofs.Derivations
import GeoScript.Proofs.Soundness
import GeoScript.Proofs.Printing
import GeoScript.Proofs.Constructs
import GeoScript.Proofs.ReadBack
import GeoScript.Proofs.FilledSessions
import GeoScript.Proofs.Joining
import GeoScript.Proofs.Renaming
import GeoScript.Proofs.Splitting
import GeoScript.Proofs.Entries
import GeoScript.Proofs.Documents
import GeoScript.Proofs.Callbacks
import GeoScript.Proofs.Broadcast
import GeoScript.Proofs.Traversal
import GeoScript.Proofs.Flattening
import GeoScript.Proofs.Pipelines
import GeoScript.Proofs.Concatenation
import GeoScript.Proofs.Conversions
import GeoScript.Proofs.Grids
import GeoScript.Proofs.NumberForms
import GeoScript.Proofs.LexicalErrors
import GeoScript.Proofs.Enclosed
import GeoScript.Proofs.SideBySide
import GeoScript.Proofs.PointTexts
import GeoScript.Proofs.Equality
import GeoScript.Proofs.Environment
import GeoScript.Proofs.Progress
