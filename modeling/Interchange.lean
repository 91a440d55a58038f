import Interchange.Decimal.Layout
import Interchange.Text.Quoted
import Interchange.Text.Hex
import Interchange.Text.Utf8
import Interchange.Text.ByteLiteral
import Interchange.Text.Alphabetic
import Interchange.Text.Alphanumeric
import Interchange.Text.Blank
import Interchange.Instant
import Interchange.Json.Printer
import Interchange.Json.Parser
import Interchange.Store
import Interchange.Fault
import Interchange.Store.Kind
import Interchange.Store.Equality
import Interchange.Store.Hashable
import Interchange.Store.Freezing
import Interchange.Store.Display
import Interchange.Op
import Interchange.Container.ValueList
import Interchange.Container.Dict
import Interchange.Container.Fields
import Interchange.Container.ValueSet
import Interchange.Attribute
import Interchange.Coercion
import Interchange.Coercion.Notation
import Interchange.Arguments
import Interchange.RunningSum
import Interchange.Crossing.Arrival
import Interchange.Crossing.Departure
import Interchange.Crossing.Tree
import Interchange.Crossing.Text
import Interchange.Schema
import Interchange.Store.Nesting
import Interchange.Mapping
import Interchange.Library
import Interchange.Call
import Interchange.Registry
import Interchange.Zero
import Interchange.Script.Evaluation
import Interchange.Script.Reading
import Interchange.Json.Receiving
import Interchange.Report
import Interchange.Pattern.Admission
import Interchange.LogFilter
import Interchange.Files
import Interchange.Settings
import Interchange.CommandLine
import Interchange.Main
import Interchange.Proofs.Store.Graph
import Interchange.Proofs.Crossing.Unfolding
import Interchange.Proofs.Crossing.NormalForm
import Interchange.Proofs.Crossing.RoundTrip
import Interchange.Proofs.Store.Marking
import Interchange.Proofs.Store.Step
import Interchange.Proofs.Store.Conduct
import Interchange.Proofs.Crossing.ArrivalConduct
import Interchange.Proofs.Mapping.Conduct
import Interchange.Proofs.Script.Conduct
import Interchange.Proofs.Script.Evaluation
import Interchange.Proofs.Store.Lasting
import Interchange.Proofs.Store.Settling
import Interchange.Proofs.Store.Sound
import Interchange.Proofs.History
import Interchange.Proofs.Mapping.Frozen
import Interchange.Proofs.Store.FreezeReach
import Interchange.Proofs.Store.WellKeyed
import Interchange.Proofs.Store.Equivalence
import Interchange.Proofs.Store.Search
import Interchange.Proofs.Binary64
import Interchange.Proofs.Store.Comparison
import Interchange.Proofs.Store.Difference
import Interchange.Proofs.Store.Lawful
import Interchange.Proofs.Store.Steady
import Interchange.Proofs.Mapping.Nesting
import Interchange.Proofs.Decimal.Value
import Interchange.Proofs.Json.Numeral
import Interchange.Proofs.Json.Lexemes
import Interchange.Proofs.Json.Spelling
import Interchange.Proofs.Json.Written
import Interchange.Proofs.Store.Twin
import Interchange.Proofs.Crossing.Mirror
import Interchange.Proofs.Text.Utf8
import Interchange.Proofs.Crossing.JsonText
import Interchange.Proofs.Container.DictHistory
import Interchange.Proofs.Crossing.Listing
import Interchange.Proofs.Script.Recovering
import Interchange.Proofs.Script.RoundTrip
import Interchange.Proofs.Crossing.Members
import Interchange.Proofs.Script.Members
import Interchange.Proofs.Registry
import Interchange.Proofs.Store.Calm
import Interchange.Proofs.Mapping.Flags
import Interchange.Proofs.Container.Reordering
import Interchange.Proofs.Mapping.Interleaving
import Interchange.Proofs.Decimal.Layout
import Interchange.Proofs.Script.KeyText
import Interchange.Proofs.Script.Renaming
import Interchange.Proofs.Script.Rereading
import Interchange.Proofs.Script.TwoWays
import Interchange.Proofs.Store.FirstMapping
import Interchange.Proofs.Store.FreezeExact
import Interchange.Proofs.Store.Walk
import Interchange.Proofs.Store.Display
import Interchange.Proofs.Store.ComparisonWalk
import Interchange.Proofs.Store.LookUps
import Interchange.Proofs.Crossing.Typed
import Interchange.Proofs.Mapping.Merging
import Interchange.Proofs.Mapping.Overlay
import Interchange.Proofs.Json.Objects
import Interchange.Proofs.Mapping.Loading
import Interchange.Proofs.Script.Entering
import Interchange.Proofs.Script.Leaving
import Interchange.Proofs.Script.Copying
import Interchange.Proofs.Script.Performing
import Interchange.Proofs.Script.Levels
import Interchange.Proofs.Script.Outward
import Interchange.Proofs.Script.Inward
import Interchange.Proofs.Coercion
import Interchange.Proofs.Binary64.Nearest
import Interchange.Proofs.Decimal.Rounding
import Interchange.Proofs.Json.Source
import Interchange.Proofs.Crossing.Places
import Interchange.Proofs.Crossing.Numbers
import Interchange.Proofs.Crossing.Rewriting
import Interchange.Proofs.RunningSum
import Interchange.Proofs.Truncation
import Interchange.Proofs.Text.Quoting
import Interchange.Proofs.Decimal.Distinct
import Interchange.Proofs.Store.ScalarText
import Interchange.Proofs.Store.Readability
import Interchange.Proofs.Store.Literal
import Interchange.Proofs.Store.Unambiguous
