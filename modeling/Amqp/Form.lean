/-!
# The described types of the standard

Forty described types are known by name. Thirty-three of them are lists of fields in
a fixed order, here called composites. Seven are sections of a message, which wrap a
single content. Each has a numeric and a symbolic descriptor, and a peer may use
either. The symbol is the name between the domain `amqp` and the type of the body.

A form is one of the forty. No two share a descriptor of either sort, so a descriptor
names at most one form.
-/

namespace Amqp

/-- Described types whose body is a list of fields in a fixed order. -/
inductive Composite where
  | openConnection
  | beginSession
  | attachLink
  | flow
  | transfer
  | disposition
  | detachLink
  | endSession
  | closeConnection
  | error
  | received
  | accepted
  | rejected
  | released
  | modified
  | source
  | target
  | deleteOnClose
  | deleteOnNoLinks
  | deleteOnNoMessages
  | deleteOnNoLinksOrMessages
  | coordinator
  | declare
  | discharge
  | declared
  | transactionalState
  | saslMechanisms
  | saslInit
  | saslChallenge
  | saslResponse
  | saslOutcome
  | header
  | properties
  deriving DecidableEq, Repr

namespace Composite

/-- Every composite. -/
def all : List Composite :=
  [openConnection, beginSession, attachLink, flow, transfer, disposition, detachLink,
    endSession, closeConnection, error, received, accepted, rejected, released, modified,
    source, target, deleteOnClose, deleteOnNoLinks, deleteOnNoMessages,
    deleteOnNoLinksOrMessages, coordinator, declare, discharge, declared, transactionalState,
    saslMechanisms, saslInit, saslChallenge, saslResponse, saslOutcome, header, properties]

/-- The name of a composite in the standard. -/
def name : Composite → String
  | openConnection => "open"
  | beginSession => "begin"
  | attachLink => "attach"
  | flow => "flow"
  | transfer => "transfer"
  | disposition => "disposition"
  | detachLink => "detach"
  | endSession => "end"
  | closeConnection => "close"
  | error => "error"
  | received => "received"
  | accepted => "accepted"
  | rejected => "rejected"
  | released => "released"
  | modified => "modified"
  | source => "source"
  | target => "target"
  | deleteOnClose => "delete-on-close"
  | deleteOnNoLinks => "delete-on-no-links"
  | deleteOnNoMessages => "delete-on-no-messages"
  | deleteOnNoLinksOrMessages => "delete-on-no-links-or-messages"
  | coordinator => "coordinator"
  | declare => "declare"
  | discharge => "discharge"
  | declared => "declared"
  | transactionalState => "transactional-state"
  | saslMechanisms => "sasl-mechanisms"
  | saslInit => "sasl-init"
  | saslChallenge => "sasl-challenge"
  | saslResponse => "sasl-response"
  | saslOutcome => "sasl-outcome"
  | header => "header"
  | properties => "properties"

/-- The numeric descriptor of a composite. -/
def code : Composite → UInt64
  | openConnection => 0x10
  | beginSession => 0x11
  | attachLink => 0x12
  | flow => 0x13
  | transfer => 0x14
  | disposition => 0x15
  | detachLink => 0x16
  | endSession => 0x17
  | closeConnection => 0x18
  | error => 0x1d
  | received => 0x23
  | accepted => 0x24
  | rejected => 0x25
  | released => 0x26
  | modified => 0x27
  | source => 0x28
  | target => 0x29
  | deleteOnClose => 0x2b
  | deleteOnNoLinks => 0x2c
  | deleteOnNoMessages => 0x2d
  | deleteOnNoLinksOrMessages => 0x2e
  | coordinator => 0x30
  | declare => 0x31
  | discharge => 0x32
  | declared => 0x33
  | transactionalState => 0x34
  | saslMechanisms => 0x40
  | saslInit => 0x41
  | saslChallenge => 0x42
  | saslResponse => 0x43
  | saslOutcome => 0x44
  | header => 0x70
  | properties => 0x73

/-- The symbolic descriptor of a composite. -/
def symbol (composite : Composite) : String := "amqp:" ++ composite.name ++ ":list"

end Composite

/-- Described types that wrap the content of one section of a message. -/
inductive Section where
  | deliveryAnnotations
  | messageAnnotations
  | applicationProperties
  | data
  | amqpSequence
  | amqpValue
  | footer
  deriving DecidableEq, Repr

namespace Section

/-- Every section. -/
def all : List Section :=
  [deliveryAnnotations, messageAnnotations, applicationProperties, data, amqpSequence,
    amqpValue, footer]

/-- The name of a section in the standard. -/
def name : Section → String
  | deliveryAnnotations => "delivery-annotations"
  | messageAnnotations => "message-annotations"
  | applicationProperties => "application-properties"
  | data => "data"
  | amqpSequence => "amqp-sequence"
  | amqpValue => "amqp-value"
  | footer => "footer"

/-- The numeric descriptor of a section. -/
def code : Section → UInt64
  | deliveryAnnotations => 0x71
  | messageAnnotations => 0x72
  | applicationProperties => 0x74
  | data => 0x75
  | amqpSequence => 0x76
  | amqpValue => 0x77
  | footer => 0x78

/-- The type of the content as the symbolic descriptor words it. -/
def bodyName : Section → String
  | deliveryAnnotations | messageAnnotations | applicationProperties | footer => "map"
  | data => "binary"
  | amqpSequence => "list"
  | amqpValue => "*"

/-- The symbolic descriptor of a section. -/
def symbol (part : Section) : String := "amqp:" ++ part.name ++ ":" ++ part.bodyName

end Section

/-- A described type of the standard. -/
inductive Form where
  | composite (composite : Composite)
  | content (part : Section)
  deriving DecidableEq, Repr

namespace Form

/-- Every described type of the standard. -/
def all : List Form := Composite.all.map composite ++ Section.all.map content

/-- The name of a described type. -/
def name : Form → String
  | composite form => form.name
  | content form => form.name

/-- The numeric descriptor of a described type. -/
def code : Form → UInt64
  | composite form => form.code
  | content form => form.code

/-- The symbolic descriptor of a described type. -/
def symbol : Form → String
  | composite form => form.symbol
  | content form => form.symbol

/-- The list of forms leaves none out. -/
theorem mem_all (form : Form) : form ∈ all := by
  cases form with
  | composite form => cases form <;> decide
  | content form => cases form <;> decide

/-- No two forms share a numeric descriptor. -/
theorem nodup_codes : (all.map code).Nodup := by decide

/-- No two forms share a symbolic descriptor. -/
theorem nodup_symbols : (all.map symbol).Nodup := by decide +kernel

end Form

end Amqp
