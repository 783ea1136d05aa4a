import JsonQuery.Document.Basic
import JsonQuery.Proofs.Document.Refinement
import JsonQuery.Proofs.Document.RoundTrip
import JsonQuery.Proofs.Selection.Undecoded
import JsonQuery.Proofs.Path.Lexing
import JsonQuery.Proofs.Path.Numerals
import JsonQuery.Proofs.Path.Lexemes
import JsonQuery.Proofs.Path.Tokens
import JsonQuery.Proofs.Path.Layout
import JsonQuery.Proofs.Path.Grammar
import JsonQuery.Proofs.Path.Filters
import JsonQuery.Proofs.Path.Parsing
import JsonQuery.Proofs.Path.WellFormed
import JsonQuery.Proofs.Path.Writing
import JsonQuery.Proofs.Path.Concatenation
import JsonQuery.Proofs.Path.Separators
import JsonQuery.Proofs.Path.Blanks
import JsonQuery.Proofs.Path.Remaining
import JsonQuery.Proofs.Path.Wrapping
import JsonQuery.Proofs.Path.Refusals
import JsonQuery.Proofs.Document.Caching
import JsonQuery.Proofs.Selection.Quiet
import JsonQuery.Proofs.Document.Materialization
import JsonQuery.Proofs.Json.Locations
import JsonQuery.Proofs.Document.Addressing
import JsonQuery.Proofs.Document.Workspace
import JsonQuery.Proofs.Document.Transparency
import JsonQuery.Proofs.Selection.Answering
import JsonQuery.Proofs.Selection.Pointwise
import JsonQuery.Proofs.Selection.Slices
import JsonQuery.Proofs.Document.Holding
import JsonQuery.Proofs.Document.Chaining
import JsonQuery.Proofs.Json.Nesting
import JsonQuery.Proofs.Selection.Inheritance
import JsonQuery.Proofs.Document.Preservation
import JsonQuery.Proofs.Document.Reads
import JsonQuery.Proofs.Number.Rounding
import JsonQuery.Proofs.Number.Shortest
import JsonQuery.Proofs.Json.Writing
import JsonQuery.Proofs.Document.Rereading
import JsonQuery.Proofs.Source.Containment
import JsonQuery.Proofs.Source.Texts
import JsonQuery.Proofs.Source.Repetition
import JsonQuery.Proofs.Selection.RecursiveDescent
import JsonQuery.Proofs.Selection.DocumentOrder
import JsonQuery.Proofs.Selection.Distinctness
import JsonQuery.Proofs.Selection.Arena
import JsonQuery.Proofs.Selection.ParentLinks
import JsonQuery.Proofs.Selection.Words
import JsonQuery.Proofs.Selection.Checked
import JsonQuery.Proofs.Selection.Walks
import JsonQuery.Proofs.Document.Ways
import JsonQuery.Proofs.Document.Frame
import JsonQuery.Proofs.Document.Deleting
import JsonQuery.Proofs.Document.Overwriting
import JsonQuery.Proofs.Document.Removal
import JsonQuery.Proofs.Filter.Comparison
import JsonQuery.Proofs.Filter.Sources
import JsonQuery.Proofs.Filter.Converse
import JsonQuery.Proofs.Number.Quantities
import JsonQuery.Proofs.Document.Integers
import JsonQuery.Proofs.Filter.References
import JsonQuery.Proofs.Filter.Integers
import JsonQuery.Proofs.Selection.Stacking
