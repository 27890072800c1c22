import Amqp.Bytes
import Amqp.Code
import Amqp.Decimal.Shortest
import Amqp.Decoder
import Amqp.Encoder
import Amqp.Encoder.Basic
import Amqp.Error
import Amqp.Form
import Amqp.Json
import Amqp.Kind
import Amqp.Proofs.Canonical
import Amqp.Proofs.Canonical.Conditions
import Amqp.Proofs.Canonical.Encoding
import Amqp.Proofs.Canonical.Levels
import Amqp.Proofs.Canonical.Sizes
import Amqp.Proofs.Canonical.Slots
import Amqp.Proofs.Decoder.Acceptance
import Amqp.Proofs.Decoder.Containers
import Amqp.Proofs.Decoder.Nesting
import Amqp.Proofs.Decoder.Parsing
import Amqp.Proofs.Decoder.Passing
import Amqp.Proofs.Decoder.Prefixes
import Amqp.Proofs.Decoder.Regularity
import Amqp.Proofs.Decoder.Tracking
import Amqp.Proofs.Decoder.Unambiguity
import Amqp.Proofs.Encoder.Arrays
import Amqp.Proofs.Encoder.RawParts
import Amqp.Proofs.Encoder.Values
import Amqp.Proofs.Encoder.Writing
import Amqp.Proofs.Grammar
import Amqp.Proofs.Relay
import Amqp.Proofs.RoundTrip
import Amqp.Proofs.Sequencing
import Amqp.Proofs.Session
import Amqp.Proofs.Session.Agreement
import Amqp.Proofs.Source.Coupling
import Amqp.Proofs.Source.Lawful
import Amqp.Proofs.Value.Parts
import Amqp.Registry
import Amqp.Schema
import Amqp.Sink
import Amqp.Source
import Amqp.Source.Buffer
import Amqp.Source.Reader
import Amqp.Source.Stream
import Amqp.Text.Hook
import Amqp.Text.Utf8
import Amqp.Text.Utf8.RoundTrip
import Amqp.Traversal
import Amqp.TypedMap
import Amqp.Value
import Amqp.Value.Equality
import Amqp.Value.View
import Amqp.Vocabulary
import Amqp.Proofs.Decoder.Amplification
import Amqp.Proofs.Decoder.MoreInput
import Amqp.Proofs.Encoder.Atomicity
import Amqp.Proofs.Canonical.Shortest
import Amqp.Proofs.Encoder.Recursion
import Amqp.Proofs.Decoder.Depth
import Amqp.Proofs.Machine
import Amqp.Proofs.Machine.Tracking
import Amqp.Proofs.Decoder.Limit
import Amqp.Proofs.Encoder.Safety
import Amqp.Proofs.Safety
import Amqp.Proofs.Encoder.Layout
import Amqp.Proofs.Legibility
import Amqp.Proofs.Encoder.AnyHook
import Amqp.Proofs.Decoder.Selection
import Amqp.Proofs.Homogeneity
import Amqp.Proofs.Datum
import Amqp.Proofs.RawForm
import Amqp.Proofs.Descriptors
import Amqp.Proofs.Truthfulness
import Amqp.Proofs.Datum.Collapsing
import Amqp.Proofs.TextRepair
import Amqp.Proofs.Source.Breaks
import Amqp.Proofs.BrokenInput
import Amqp.Proofs.Retrying
import Amqp.Proofs.Conversation
import Amqp.Proofs.Conversation.Agreement
import Amqp.Sink.Writable
import Amqp.Proofs.Sinks
import Amqp.Proofs.Json
import Amqp.Proofs.Value.Comparison
import Amqp.Proofs.Vocabulary
