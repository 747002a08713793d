import AudioScore.Arg.Basic
import AudioScore.Arg.Error
import AudioScore.Arg.Field
import AudioScore.Arg.Kind
import AudioScore.Arg.Type
import AudioScore.Binary64.Basic
import AudioScore.Binary64.Decimal
import AudioScore.Codec.Basic
import AudioScore.Codec.Error
import AudioScore.Codec.Record
import AudioScore.Converter.Basic
import AudioScore.Converter.Options
import AudioScore.Dict
import AudioScore.Event
import AudioScore.Json.Basic
import AudioScore.Json.Scan
import AudioScore.Json.Text
import AudioScore.Json.Tree
import AudioScore.Param.Automation
import AudioScore.Param.Basic
import AudioScore.Plugin.Basic
import AudioScore.Plugin.Builtin
import AudioScore.Plugin.Component
import AudioScore.Plugin.Connect
import AudioScore.Plugin.Port
import AudioScore.Plugin.Registry
import AudioScore.Proofs.Binary64.Decimal
import AudioScore.Proofs.Json.Numeral
import AudioScore.Row
import AudioScore.Run
import AudioScore.Score.Basic
import AudioScore.Score.Command
import AudioScore.Score.Edge
import AudioScore.Score.Error
import AudioScore.Score.Graph
import AudioScore.Score.LoadingPolicy
import AudioScore.Score.Node
import AudioScore.Text.Printable
import AudioScore.Text.Shown
import AudioScore.Time
import AudioScore.Toml.Document
import AudioScore.Toml.Scalar
import AudioScore.Toml.Table
import AudioScore.WireEnum
import AudioScore.Proofs.Json.Text
import AudioScore.Proofs.Arg.RoundTrip
import AudioScore.Proofs.Codec.Agreement
import AudioScore.Proofs.Codec.Form
import AudioScore.Proofs.Codec.Grammar
import AudioScore.Proofs.Converter.Agreement
import AudioScore.Proofs.Converter.Canonical
import AudioScore.Proofs.Converter.Grammar
import AudioScore.Proofs.Converter.References
import AudioScore.Proofs.Converter.RoundTrip
import AudioScore.Proofs.Plugin.Obtained
import AudioScore.Proofs.Plugin.Registry
import AudioScore.Proofs.Plugin.Session
import AudioScore.Proofs.Arg.Conforms
import AudioScore.Proofs.Plugin.FieldChange
import AudioScore.Proofs.Plugin.Undeclared
import AudioScore.Proofs.Plugin.Refusal
import AudioScore.Proofs.Plugin.Conforming
import AudioScore.Proofs.Json.Spelling
import AudioScore.Proofs.Codec.Insertion
import AudioScore.Proofs.Converter.Insertion
import AudioScore.Proofs.Json.Accepted
import AudioScore.Proofs.Plugin.Coherence
import AudioScore.Proofs.Plugin.Creation
import AudioScore.Proofs.Arg.Outcome
import AudioScore.Proofs.Arg.Writes
import AudioScore.Proofs.Param.Automation
import AudioScore.Proofs.Plugin.Connection
import AudioScore.Proofs.Score.Incidence
import AudioScore.Proofs.Converter.Building
import AudioScore.Proofs.Converter.Events
import AudioScore.Proofs.Time
