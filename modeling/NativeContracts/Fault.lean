import NativeContracts.Item.Kind
import NativeContracts.Text.Hex
import NativeContracts.Limits

/-! What can go wrong with values, stacks and stored bytes. A fault names its
cause, and `Fault.message` alone decides how causes are worded. A computation whose
numbers are checked can also stop without a fault, when one of them is out of range. -/

namespace NativeContracts

/-- Why an item cannot be read as a value of another kind. -/
inductive ConversionFault where
  | tooWideForBoolean (size : Nat)
  | tooWideForInteger (size : Nat)
  | noInteger (kind : Item.Kind)
  | noBytes (kind : Item.Kind)
  | notUtf8
  | notCompound (kind : Item.Kind)
  | notStruct (kind : Item.Kind)
  deriving DecidableEq

/-- Why an operation does not fit the state it meets. -/
inductive OperationFault where
  | tooManyContexts (max : Nat)
  | noContext
  deriving DecidableEq

/-- Why an item has no stored form, or bytes store no item. -/
inductive EncodingFault where
  | integerTooWide (size max : Nat)
  | tooManyItems (max : Nat)
  | unknownMarker (byte : UInt8)
  | notBoolean (byte : UInt8)
  | lengthTooLarge (length max : Nat)
  | endOfData (needed available : Nat)
  | trailingBytes
  deriving DecidableEq

inductive Fault where
  | invalidType (cause : ConversionFault)
  | stackUnderflow (requested available : Nat)
  | referenceLimitExceeded (requested limit : Nat)
  | itemTooLarge (size max : Nat)
  | invalidOperation (cause : OperationFault)
  | encoding (cause : EncodingFault)
  deriving DecidableEq

/-- What ends a computation that checks its numbers and places. -/
inductive Stop where
  | fault (cause : Fault)
  /-- No answer at all: nothing reports it, and whatever is under way breaks off. -/
  | outOfRange
  deriving DecidableEq

abbrev Checked := Except Stop

/-- The number, if it is a 64-bit word. -/
def Checked.word (n : Nat) : Checked Nat :=
  if n < UInt64.size then .ok n else .error .outOfRange

def ConversionFault.message : ConversionFault → String
  | tooWideForBoolean size => s!"Cannot convert {size} bytes to Boolean"
  | tooWideForInteger size => s!"Integer of {size} bytes exceeds {integerWidth}"
  | noInteger kind => s!"Cannot convert {kind.name} to Integer"
  | noBytes kind => s!"Cannot convert {kind.name} to ByteArray"
  | notUtf8 => "Byte string is not valid UTF-8"
  | notCompound kind => s!"Cannot convert {kind.name} to Array"
  | notStruct kind => s!"Expected Struct, found {kind.name}"

def OperationFault.message : OperationFault → String
  | tooManyContexts max => s!"Invocation stack exceeds {max} contexts"
  | noContext => "No execution context is loaded"

def hexByte (byte : UInt8) : String := "0x" ++ Hex.encode [byte]

def EncodingFault.message : EncodingFault → String
  | integerTooWide size max => s!"Integer of {size} bytes exceeds maximum {max}"
  | tooManyItems max => s!"More than {max} items in serialized data"
  | unknownMarker byte => s!"Invalid stack item type {hexByte byte}"
  | notBoolean byte => s!"Invalid boolean byte {hexByte byte}"
  | lengthTooLarge length max => s!"Length {length} exceeds maximum {max}"
  | endOfData needed available =>
    s!"Unexpected end of data: need {needed} bytes, have {available}"
  | trailingBytes => "Trailing bytes after stack item"

def Fault.message : Fault → String
  | invalidType cause => s!"Invalid type: {cause.message}"
  | stackUnderflow requested available =>
    s!"Stack underflow: requested {requested}, available {available}"
  | referenceLimitExceeded requested limit =>
    s!"Reference limit exceeded: {requested} references requested, limit is {limit}"
  | itemTooLarge size max => s!"Item too large: {size} bytes exceeds maximum of {max}"
  | invalidOperation cause => s!"Invalid operation: {cause.message}"
  | encoding cause => s!"Serialization error: {cause.message}"

end NativeContracts
