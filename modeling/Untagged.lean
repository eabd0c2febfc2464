import Untagged.Double.Text
import Untagged.Shape.Record
import Untagged.Workbench
import Untagged.UnionChoice
import Untagged.Report
import Untagged.Unions.Named
import Untagged.Unions.Series
import Untagged.Unions.Measures
import Untagged.Unions.Parcel
import Untagged.Json.Source
import Untagged.Json.Sink
import Untagged.Files
import Untagged.Json.DirectRecord
import Untagged.Toml.Reader
import Untagged.Config.Load
import Untagged.Load
import Untagged.Command
import Untagged.LogFilter
import Untagged.Main
import Untagged.Proofs.Union.Trial
import Untagged.Proofs.Union.Declared
import Untagged.Proofs.Union.Selection
import Untagged.Proofs.Json.Consumed
import Untagged.Proofs.Json.Lookahead
import Untagged.Proofs.Union.Sources
import Untagged.Proofs.Json.Quoted
import Untagged.Proofs.Json.Integers
import Untagged.Proofs.Json.Spelling
import Untagged.Proofs.Json.ReadBack
import Untagged.Proofs.Json.Sink
import Untagged.Proofs.Shape.Restored
import Untagged.Proofs.Union.Written
import Untagged.Proofs.Unions.Fruit
import Untagged.Proofs.Union.Recoding
import Untagged.Proofs.Agreement
import Untagged.Proofs.Union.Order
import Untagged.Proofs.Json.Members
import Untagged.Proofs.Json.Sameness
import Untagged.Proofs.Shape.MemberOrder
import Untagged.Proofs.Shape.Sameness
import Untagged.Proofs.Union.Sameness
import Untagged.Proofs.Unions.Orderly
import Untagged.Proofs.Unions.Sameness
import Untagged.Proofs.Schema.Validation
import Untagged.Proofs.Schema.Records
import Untagged.Proofs.Unions.FruitSchema
import Untagged.Proofs.Json.Prefix
import Untagged.Proofs.Json.Listed
import Untagged.Proofs.Union.Streamed
import Untagged.Proofs.Json.Unspaced
import Untagged.Proofs.Json.Texts
import Untagged.Proofs.Union.Encoded
import Untagged.Proofs.Double.Rounding
import Untagged.Proofs.Double.Shortest
import Untagged.Proofs.Json.Scaled
import Untagged.Proofs.Json.Floats
import Untagged.Proofs.Json.Nearby
import Untagged.Proofs.Json.Reread
import Untagged.Proofs.Run.Disk
import Untagged.Proofs.Run.Document
import Untagged.Proofs.Run.Report
import Untagged.Proofs.Run.Outcome
import Untagged.Proofs.Shape.Visits
import Untagged.Proofs.Union.Trace
import Untagged.Proofs.Run.Agreement
import Untagged.Proofs.Union.Bounded
import Untagged.Proofs.Shape.Closed
import Untagged.Proofs.Unions.FruitGrammar
import Untagged.Proofs.Json.Collected
import Untagged.Proofs.Union.Inspected
import Untagged.Proofs.Shape.Open
import Untagged.Proofs.Unions.Naming
import Untagged.Proofs.Json.FirstByte
import Untagged.Proofs.Json.IntegerLiteral
import Untagged.Proofs.Json.Literals
import Untagged.Proofs.Unions.Series
import Untagged.Proofs.Union.Checked
import Untagged.Proofs.Unions.Amounts
import Untagged.Proofs.Json.Skip
import Untagged.Proofs.Config.Json
import Untagged.Proofs.Config.JsonText
import Untagged.Proofs.Toml.Quoted
import Untagged.Proofs.Toml.Words
import Untagged.Proofs.Toml.Lines
import Untagged.Proofs.Config.Toml
import Untagged.Proofs.Config.TomlText
import Untagged.Proofs.Config.Agreement
import Untagged.Proofs.Schema.Uses
import Untagged.Proofs.Schema.References
import Untagged.Proofs.Union.Requested
import Untagged.Proofs.Shape.Faults
import Untagged.Proofs.Unions.FruitFaults
