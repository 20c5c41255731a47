import NativeContracts.Fault
import NativeContracts.Service
import NativeContracts.Store.Key
import NativeContracts.Text.Quoted
import NativeContracts.Trigger

/-! What makes an execution fail for good. An error names its cause, and the
`message` functions alone decide how causes are worded. -/

namespace NativeContracts

/-- The bytes of an account's address. -/
def addressSize : Nat := 20

/-- Why an item is no account. -/
inductive AccountFault where
  | notStruct (fault : Fault)
  | fieldCount (found : Nat)
  | balance (fault : Fault)
  | balanceTooWide (width : Nat)
  deriving DecidableEq

/-- The amounts a ledger keeps readable as integers. -/
inductive Amount where
  | balance
  | supply
  deriving DecidableEq

/-- Which rule of a ledger would break. -/
inductive Violation where
  | negativeAmount (amount : Int)
  | tooWide (amount : Amount) (width : Nat)
  | insufficientBalance (balance amount : Int)
  | negativeSupply (supply : Int)
  | alreadyInitialized (contract : String)
  deriving DecidableEq

/-- Why two contracts cannot stand in one registry. -/
inductive Collision where
  | sameService (owner contract : String) (service : Service)
  | sameId (owner contract : String) (id : Int32)
  deriving DecidableEq

/-- Why a contract refuses what it was given. -/
inductive Refusal where
  | negativeAmount (amount : Int)
  | badHex (text : String) (fault : Hex.Fault)
  | accountLength (found : Nat)
  | missingAccount
  | badAccount (fault : Fault)
  /-- A refusal in a contract's own words. -/
  | other (text : String)
  deriving DecidableEq

inductive StoreFault where
  | constantChanged (key : Key)
  | constantRemoved (key : Key)
  | unwritable (fault : Fault)
  | unreadable (fault : Fault)
  deriving DecidableEq

inductive Error where
  | wrongTrigger (operation : String) (required active : Trigger)
  | malformed (cause : AccountFault)
  | violation (cause : Violation)
  | duplicateMethod (contract method : String)
  | collision (cause : Collision)
  | refused (cause : Refusal)
  | store (cause : StoreFault)
  | fault (cause : Fault)
  /-- A number that is no word. It is no answer to a caller: the execution breaks off. -/
  | outOfRange
  deriving DecidableEq

def AccountFault.message : AccountFault → String
  | notStruct fault => s!"AccountState: {fault.message}"
  | fieldCount found => s!"AccountState expects 1 field, found {found}"
  | balance fault => s!"AccountState balance: {fault.message}"
  | balanceTooWide width => s!"AccountState balance of {width} bytes exceeds {integerWidth}"

def Amount.name : Amount → String
  | balance => "Balance"
  | supply => "Total supply"

def Violation.message : Violation → String
  | negativeAmount amount => s!"Negative amount {amount}"
  | tooWide amount width => s!"{amount.name} would need {width} bytes, more than {integerWidth}"
  | insufficientBalance balance amount => s!"Insufficient balance: {balance} < {amount}"
  | negativeSupply supply => s!"Total supply would become {supply}"
  | alreadyInitialized contract => s!"{contract} is already initialized"

def Collision.message : Collision → String
  | sameService owner contract service => s!"{owner} and {contract} both map to {service.text}"
  | sameId owner contract id => s!"{owner} and {contract} share id {id.toInt}"

def hexMessage : Hex.Fault → String
  | .oddLength => "Odd number of digits"
  | .invalidDigit byte position =>
    s!"Invalid character {Quoted.char (Char.ofUInt8 byte)} at position {position}"

def Refusal.message : Refusal → String
  | negativeAmount amount => s!"Negative token amount {amount}"
  | badHex text fault => s!"Invalid account hex {text}: {hexMessage fault}"
  | accountLength found => s!"Invalid account length: expected {addressSize}, found {found}"
  | missingAccount => "Missing account argument"
  | badAccount fault => s!"Invalid account argument: {fault.message}"
  | other text => text

def StoreFault.message : StoreFault → String
  | constantChanged key => s!"Cannot modify constant storage item {key.text}"
  | constantRemoved key => s!"Cannot delete constant storage item {key.text}"
  | unwritable fault => s!"Failed to serialize state: {fault.message}"
  | unreadable fault => s!"Failed to deserialize state: {fault.message}"

def Error.message : Error → String
  | wrongTrigger operation required active =>
    s!"{operation} is not permitted under the {active.name} trigger (requires {required.name})"
  | malformed cause => s!"Malformed stack item: {cause.message}"
  | violation cause => s!"Invariant violation: {cause.message}"
  | duplicateMethod contract method => s!"Duplicate method: {contract} already exposes {method}"
  | collision cause => s!"Service collision: {cause.message}"
  | refused cause => s!"Native contract error: {cause.message}"
  | store cause => s!"Storage error: {cause.message}"
  | fault cause => s!"VM error: {cause.message}"
  | outOfRange => "attempt to add with overflow"

instance : MonadLift (Except Fault) (Except Error) where
  monadLift
    | .ok value => .ok value
    | .error fault => .error (.fault fault)

end NativeContracts
