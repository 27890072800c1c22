import Amqp.Form
import Amqp.Kind

/-!
# Types, and the fields of the described types

A type is a way of reading a value: which kinds it admits and the word used when a
value is not admitted. Restricted types differ from their base only in that word.
Unions admit some of the described types. A typed map admits maps whose keys and
values are of given types, and a list of symbols also admits a single symbol.

A composite is a sequence of named, typed, optional fields, and a section wraps one
content type. This module is the table of both.
-/

namespace Amqp

/-- A type of the keys of typed maps: keys of some kinds, under one name. -/
structure KeyType where
  kinds : List Kind
  name : String
  deriving DecidableEq, Repr

namespace KeyType

/-- Keys of one kind. -/
def ofKind (kind : Kind) : KeyType := ⟨[kind], kind.name⟩

/-- Truth values as keys. -/
def boolean : KeyType := ofKind .boolean

/-- Unsigned numbers of 64 bits as keys. -/
def ulong : KeyType := ofKind .ulong

/-- Strings as keys. -/
def string : KeyType := ofKind .string

/-- Symbols as keys. -/
def symbol : KeyType := ofKind .symbol

/-- Annotations are keyed by symbols or by numbers. -/
def annotationKey : KeyType := ⟨[.symbol, .ulong], "annotation key"⟩

end KeyType

/-- The types a value can be read as. -/
inductive Ty where
  /-- Every value. -/
  | any
  /-- The values of some kinds, under one name. -/
  | kinds (admitted : List Kind) (name : String)
  /-- An array of symbols, or one symbol that stands for itself alone. -/
  | symbols
  /-- A map with keys and values of given types and no key twice. -/
  | typedMap (keys : KeyType) (values : Ty)
  /-- The described types of some forms, under one name. -/
  | forms (admitted : List Form) (name : String)
  /-- Null, or a value of a type. -/
  | optional (inner : Ty)
  deriving DecidableEq, Repr

namespace Ty

/-- The values of one kind. -/
def ofKind (kind : Kind) : Ty := kinds [kind] kind.name

/-- The described values of one form. -/
def ofForm (form : Form) : Ty := forms [form] form.name

/-- Maps from symbols to values. -/
def fields : Ty := typedMap .symbol any

/-- Maps from annotation keys to values. -/
def annotations : Ty := typedMap .annotationKey any

/-- A key of an annotation map, read on its own. -/
def annotationKey : Ty := kinds KeyType.annotationKey.kinds KeyType.annotationKey.name

/-- The four ways to identify a message. -/
def messageId : Ty := kinds [.ulong, .uuid, .binary, .string] "message-id"

/-- The end of a link a peer takes: false for the sender, true for the receiver. -/
def role : Ty := kinds [.boolean] "role"

/-- How a sender settles its deliveries. -/
def senderSettleMode : Ty := kinds [.ubyte] "sender-settle-mode"

/-- How a receiver settles its deliveries. -/
def receiverSettleMode : Ty := kinds [.ubyte] "receiver-settle-mode"

/-- What a terminus keeps when its link goes down. -/
def terminusDurability : Ty := kinds [.uint] "terminus-durability"

/-- The verdict of an authentication exchange. -/
def saslCode : Ty := kinds [.ubyte] "sasl-code"

/-- The final states of a delivery. -/
def outcome : Ty :=
  forms [.composite .accepted, .composite .rejected, .composite .released,
    .composite .modified, .composite .declared] "outcome"

/-- The states of a delivery: the final ones, and those on the way. -/
def deliveryState : Ty :=
  forms [.composite .received, .composite .accepted, .composite .rejected,
    .composite .released, .composite .modified, .composite .declared,
    .composite .transactionalState] "delivery-state"

/-- The receiving end of a link: a node, or the coordinator of transactions. -/
def targetTerminus : Ty := forms [.composite .target, .composite .coordinator] "target"

end Ty

/-- A named field of a composite. Every field may be left unset. -/
structure Field where
  name : String
  type : Ty
  deriving DecidableEq, Repr

namespace Composite

open Ty in
/-- The fields of a composite in the order in which they are written. -/
def fields : Composite → List Field
  | openConnection =>
    [⟨"container-id", ofKind .string⟩, ⟨"hostname", ofKind .string⟩,
      ⟨"max-frame-size", ofKind .uint⟩, ⟨"channel-max", ofKind .ushort⟩,
      ⟨"idle-time-out", ofKind .uint⟩, ⟨"outgoing-locales", symbols⟩,
      ⟨"incoming-locales", symbols⟩, ⟨"offered-capabilities", symbols⟩,
      ⟨"desired-capabilities", symbols⟩, ⟨"properties", Ty.fields⟩]
  | beginSession =>
    [⟨"remote-channel", ofKind .ushort⟩, ⟨"next-outgoing-id", ofKind .uint⟩,
      ⟨"incoming-window", ofKind .uint⟩, ⟨"outgoing-window", ofKind .uint⟩,
      ⟨"handle-max", ofKind .uint⟩, ⟨"offered-capabilities", symbols⟩,
      ⟨"desired-capabilities", symbols⟩, ⟨"properties", Ty.fields⟩]
  | attachLink =>
    [⟨"name", ofKind .string⟩, ⟨"handle", ofKind .uint⟩, ⟨"role", role⟩,
      ⟨"snd-settle-mode", senderSettleMode⟩, ⟨"rcv-settle-mode", receiverSettleMode⟩,
      ⟨"source", ofForm (.composite .source)⟩, ⟨"target", targetTerminus⟩,
      ⟨"unsettled", ofKind .map⟩, ⟨"incomplete-unsettled", ofKind .boolean⟩,
      ⟨"initial-delivery-count", ofKind .uint⟩, ⟨"max-message-size", ofKind .ulong⟩,
      ⟨"offered-capabilities", symbols⟩, ⟨"desired-capabilities", symbols⟩,
      ⟨"properties", Ty.fields⟩]
  | flow =>
    [⟨"next-incoming-id", ofKind .uint⟩, ⟨"incoming-window", ofKind .uint⟩,
      ⟨"next-outgoing-id", ofKind .uint⟩, ⟨"outgoing-window", ofKind .uint⟩,
      ⟨"handle", ofKind .uint⟩, ⟨"delivery-count", ofKind .uint⟩,
      ⟨"link-credit", ofKind .uint⟩, ⟨"available", ofKind .uint⟩,
      ⟨"drain", ofKind .boolean⟩, ⟨"echo", ofKind .boolean⟩, ⟨"properties", Ty.fields⟩]
  | transfer =>
    [⟨"handle", ofKind .uint⟩, ⟨"delivery-id", ofKind .uint⟩,
      ⟨"delivery-tag", ofKind .binary⟩, ⟨"message-format", ofKind .uint⟩,
      ⟨"settled", ofKind .boolean⟩, ⟨"more", ofKind .boolean⟩,
      ⟨"rcv-settle-mode", receiverSettleMode⟩, ⟨"state", deliveryState⟩,
      ⟨"resume", ofKind .boolean⟩, ⟨"aborted", ofKind .boolean⟩,
      ⟨"batchable", ofKind .boolean⟩]
  | disposition =>
    [⟨"role", role⟩, ⟨"first", ofKind .uint⟩, ⟨"last", ofKind .uint⟩,
      ⟨"settled", ofKind .boolean⟩, ⟨"state", deliveryState⟩,
      ⟨"batchable", ofKind .boolean⟩]
  | detachLink =>
    [⟨"handle", ofKind .uint⟩, ⟨"closed", ofKind .boolean⟩,
      ⟨"error", ofForm (.composite .error)⟩]
  | endSession => [⟨"error", ofForm (.composite .error)⟩]
  | closeConnection => [⟨"error", ofForm (.composite .error)⟩]
  | error =>
    [⟨"condition", ofKind .symbol⟩, ⟨"description", ofKind .string⟩, ⟨"info", Ty.fields⟩]
  | received => [⟨"section-number", ofKind .uint⟩, ⟨"section-offset", ofKind .ulong⟩]
  | accepted => []
  | rejected => [⟨"error", ofForm (.composite .error)⟩]
  | released => []
  | modified =>
    [⟨"delivery-failed", ofKind .boolean⟩, ⟨"undeliverable-here", ofKind .boolean⟩,
      ⟨"message-annotations", Ty.fields⟩]
  | source =>
    [⟨"address", ofKind .string⟩, ⟨"durable", terminusDurability⟩,
      ⟨"expiry-policy", ofKind .symbol⟩, ⟨"timeout", ofKind .uint⟩,
      ⟨"dynamic", ofKind .boolean⟩, ⟨"dynamic-node-properties", Ty.fields⟩,
      ⟨"distribution-mode", ofKind .symbol⟩, ⟨"filter", Ty.fields⟩,
      ⟨"default-outcome", outcome⟩, ⟨"outcomes", symbols⟩, ⟨"capabilities", symbols⟩]
  | target =>
    [⟨"address", ofKind .string⟩, ⟨"durable", terminusDurability⟩,
      ⟨"expiry-policy", ofKind .symbol⟩, ⟨"timeout", ofKind .uint⟩,
      ⟨"dynamic", ofKind .boolean⟩, ⟨"dynamic-node-properties", Ty.fields⟩,
      ⟨"capabilities", symbols⟩]
  | deleteOnClose => []
  | deleteOnNoLinks => []
  | deleteOnNoMessages => []
  | deleteOnNoLinksOrMessages => []
  | coordinator => [⟨"capabilities", symbols⟩]
  | declare => [⟨"global-id", ofKind .binary⟩]
  | discharge => [⟨"txn-id", ofKind .binary⟩, ⟨"fail", ofKind .boolean⟩]
  | declared => [⟨"txn-id", ofKind .binary⟩]
  | transactionalState => [⟨"txn-id", ofKind .binary⟩, ⟨"outcome", outcome⟩]
  | saslMechanisms => [⟨"sasl-server-mechanisms", symbols⟩]
  | saslInit =>
    [⟨"mechanism", ofKind .symbol⟩, ⟨"initial-response", ofKind .binary⟩,
      ⟨"hostname", ofKind .string⟩]
  | saslChallenge => [⟨"challenge", ofKind .binary⟩]
  | saslResponse => [⟨"response", ofKind .binary⟩]
  | saslOutcome => [⟨"code", saslCode⟩, ⟨"additional-data", ofKind .binary⟩]
  | header =>
    [⟨"durable", ofKind .boolean⟩, ⟨"priority", ofKind .ubyte⟩, ⟨"ttl", ofKind .uint⟩,
      ⟨"first-acquirer", ofKind .boolean⟩, ⟨"delivery-count", ofKind .uint⟩]
  | properties =>
    [⟨"message-id", messageId⟩, ⟨"user-id", ofKind .binary⟩, ⟨"to", ofKind .string⟩,
      ⟨"subject", ofKind .string⟩, ⟨"reply-to", ofKind .string⟩,
      ⟨"correlation-id", messageId⟩, ⟨"content-type", ofKind .symbol⟩,
      ⟨"content-encoding", ofKind .symbol⟩, ⟨"absolute-expiry-time", ofKind .timestamp⟩,
      ⟨"creation-time", ofKind .timestamp⟩, ⟨"group-id", ofKind .string⟩,
      ⟨"group-sequence", ofKind .uint⟩, ⟨"reply-to-group-id", ofKind .string⟩]

end Composite

namespace Section

/-- The type of the content that a section wraps. -/
def type : Section → Ty
  | deliveryAnnotations | messageAnnotations | footer => Ty.annotations
  | applicationProperties => .typedMap .string .any
  | data => .ofKind .binary
  | amqpSequence => .ofKind .list
  | amqpValue => .any

end Section

namespace Ty

/-- Whether values of a type are typed maps. -/
def isTypedMap : Ty → Bool
  | typedMap _ _ => true
  | _ => false

/-- Whether a type makes the field list that holds a set value of it use four-byte
prefixes whatever its length: so do maps, error lists, and described values of no
particular form. Sections follow their content. -/
def wide : Ty → Bool
  | any => false
  | kinds admitted _ => admitted = [.map] || admitted = [.described]
  | symbols => false
  | typedMap _ _ => true
  | forms [.composite .error] _ => true
  | forms [.content part] _ =>
    match part with
    | .deliveryAnnotations | .messageAnnotations | .applicationProperties | .footer => true
    | .data | .amqpSequence | .amqpValue => false
  | forms _ _ => false
  | optional inner => inner.wide

/-- A section is as wide as its content. -/
theorem wide_ofForm_content (part : Section) :
    (ofForm (.content part)).wide = part.type.wide := by
  cases part <;> rfl

end Ty

end Amqp
