import Amqp.Form

/-!
# Words of the standard

Some numbers have names, but other numbers are as valid: a peer may send a settle mode
or a descriptor that this library has no name for.
-/

namespace Amqp

/-- A set of numbers some of which have names. -/
structure OpenEnumeration where
  title : String
  names : List (Nat × String)

namespace OpenEnumeration

/-- A number under its name, or under the title of the set if it has none. -/
def display (enumeration : OpenEnumeration) (number : Nat) : String :=
  match enumeration.names.lookup number with
  | some name => enumeration.title ++ "::" ++ name
  | none => enumeration.title ++ "(" ++ toString number ++ ")"

/-- The words of a hyphenated name, each with a capital letter and joined. -/
def joinWords (name : String) : String :=
  let step (state : Bool × List Char) (char : Char) : Bool × List Char :=
    if char = '-' then (true, state.2)
    else (false, (if state.1 then char.toUpper else char) :: state.2)
  String.ofList (name.toList.foldl step (true, [])).2.reverse

/-- The numeric descriptors of the standard. -/
def descriptorCode : OpenEnumeration where
  title := "DescriptorCode"
  names := Form.all.map fun form => (form.code.toNat, joinWords form.name)

/-- How a sender settles its deliveries. -/
def senderSettleMode : OpenEnumeration :=
  ⟨"SenderSettleMode", [(0, "Unsettled"), (1, "Settled"), (2, "Mixed")]⟩

/-- How a receiver settles its deliveries. -/
def receiverSettleMode : OpenEnumeration :=
  ⟨"ReceiverSettleMode", [(0, "First"), (1, "Second")]⟩

/-- What a terminus keeps when its link goes down. -/
def terminusDurability : OpenEnumeration :=
  ⟨"TerminusDurability", [(0, "None"), (1, "Configuration"), (2, "UnsettledState")]⟩

/-- The verdict of an authentication exchange. -/
def saslCode : OpenEnumeration :=
  ⟨"SaslCode", [(0, "Ok"), (1, "Auth"), (2, "Sys"), (3, "SysPerm"), (4, "SysTemp")]⟩

/-- The enumerations of the standard. -/
def all : List OpenEnumeration :=
  [descriptorCode, senderSettleMode, receiverSettleMode, terminusDurability, saslCode]

end OpenEnumeration

end Amqp
