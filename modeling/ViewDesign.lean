import ViewDesign.Catalog
import ViewDesign.Command.Arguments
import ViewDesign.Command.Note
import ViewDesign.Command.Outcome
import ViewDesign.Decimal.Binary64
import ViewDesign.Decimal.Layout
import ViewDesign.Decimal.Reading
import ViewDesign.Decimal.Shortest
import ViewDesign.Design
import ViewDesign.Document.Complaint
import ViewDesign.Document.Decoder
import ViewDesign.Document.Format
import ViewDesign.Document.Node
import ViewDesign.Document.Record
import ViewDesign.Evaluation
import ViewDesign.Failure
import ViewDesign.Files
import ViewDesign.Glob.Pattern
import ViewDesign.Glob.Search
import ViewDesign.Json.Basic
import ViewDesign.Json.Numeral
import ViewDesign.Json.Printer
import ViewDesign.Json.Reader
import ViewDesign.Main
import ViewDesign.MapFunction.Erlang
import ViewDesign.MapFunction.JavaScript
import ViewDesign.NameMap
import ViewDesign.Proofs.Catalog
import ViewDesign.Proofs.Command.Listing
import ViewDesign.Proofs.Command.Running
import ViewDesign.Proofs.Decimal.Digits
import ViewDesign.Proofs.Decimal.Rounding
import ViewDesign.Proofs.Decimal.Shortest
import ViewDesign.Proofs.Decoding
import ViewDesign.Proofs.DesignSchema
import ViewDesign.Proofs.Document.Acceptance
import ViewDesign.Proofs.Document.Given
import ViewDesign.Proofs.Document.Matching
import ViewDesign.Proofs.Document.Members
import ViewDesign.Proofs.Document.Records
import ViewDesign.Proofs.Document.Regular
import ViewDesign.Proofs.Document.Steadiness
import ViewDesign.Proofs.Document.Storing
import ViewDesign.Proofs.Document.TextTrees
import ViewDesign.Proofs.Document.Values
import ViewDesign.Proofs.Entries
import ViewDesign.Proofs.Erlang.Binaries
import ViewDesign.Proofs.Erlang.Evaluation
import ViewDesign.Proofs.Erlang.Structure
import ViewDesign.Proofs.Erlang.Syntax
import ViewDesign.Proofs.Evaluation.Alone
import ViewDesign.Proofs.Evaluation.Attribution
import ViewDesign.Proofs.Evaluation.Conversion
import ViewDesign.Proofs.Evaluation.Documents
import ViewDesign.Proofs.Evaluation.Emitting
import ViewDesign.Proofs.Evaluation.Independence
import ViewDesign.Proofs.Evaluation.Isolation
import ViewDesign.Proofs.Evaluation.Lookup
import ViewDesign.Proofs.Evaluation.Loop
import ViewDesign.Proofs.Evaluation.Meaning
import ViewDesign.Proofs.Evaluation.Members
import ViewDesign.Proofs.Evaluation.Narrowing
import ViewDesign.Proofs.Evaluation.Parsing
import ViewDesign.Proofs.Evaluation.Program
import ViewDesign.Proofs.Evaluation.Reference
import ViewDesign.Proofs.Evaluation.Round
import ViewDesign.Proofs.Evaluation.Rows
import ViewDesign.Proofs.Evaluation.Writing
import ViewDesign.Proofs.Json.Composed
import ViewDesign.Proofs.Json.Finite
import ViewDesign.Proofs.Json.Indented
import ViewDesign.Proofs.Json.Literal
import ViewDesign.Proofs.Json.Parts
import ViewDesign.Proofs.Json.Range
import ViewDesign.Proofs.Json.Reading
import ViewDesign.Proofs.Json.Rereading
import ViewDesign.Proofs.Json.Spelling
import ViewDesign.Proofs.MapFunction.Languages
import ViewDesign.Proofs.MapFunction.Quoting
import ViewDesign.Proofs.MapFunction.Structure
import ViewDesign.Proofs.MapFunction.Template
import ViewDesign.Proofs.Script.Agreement
import ViewDesign.Proofs.Script.Frames
import ViewDesign.Proofs.Script.Link
import ViewDesign.Proofs.Script.Loading
import ViewDesign.Proofs.Script.Natives
import ViewDesign.Proofs.Script.Operations
import ViewDesign.Proofs.Script.Order
import ViewDesign.Proofs.Script.Quiet
import ViewDesign.Proofs.Script.Readers
import ViewDesign.Proofs.Script.Scanning
import ViewDesign.Proofs.Script.Scoping
import ViewDesign.Proofs.Script.Serializing
import ViewDesign.Proofs.Script.Simulation
import ViewDesign.Proofs.Script.Steps
import ViewDesign.Proofs.Specifications
import ViewDesign.Proofs.Text.Bytes
import ViewDesign.Proofs.Traversal
import ViewDesign.Proofs.View.Indexing
import ViewDesign.Proofs.View.Parameters
import ViewDesign.Proofs.View.Results
import ViewDesign.Proofs.View.StoredOptions
import ViewDesign.Proofs.WrittenViews
import ViewDesign.Script.Coercion
import ViewDesign.Script.Execution
import ViewDesign.Script.Expr
import ViewDesign.Script.Heap
import ViewDesign.Script.JsonText
import ViewDesign.Script.Lexing
import ViewDesign.Script.Member
import ViewDesign.Script.Number
import ViewDesign.Script.Parser
import ViewDesign.Script.Realm
import ViewDesign.Script.Token
import ViewDesign.Text.Printable
import ViewDesign.Text.Quoted
import ViewDesign.Text.Units
import ViewDesign.View.Language
import ViewDesign.View.Options
import ViewDesign.View.Query
import ViewDesign.View.Row
import ViewDesign.View.Spec
import ViewDesign.Yaml.Cursor
import ViewDesign.Yaml.Scalar
import ViewDesign.Yaml.ScalarText
import ViewDesign.Yaml.Token
import ViewDesign.Yaml.Tree
