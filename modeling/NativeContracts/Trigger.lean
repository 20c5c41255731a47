/-! The phase that an execution runs in. It is given when the execution starts and
decides which parts of a contract's life may happen. -/

namespace NativeContracts

inductive Trigger where
  | system
  | verification
  | application
  deriving DecidableEq

namespace Trigger

def name : Trigger → String
  | system => "System"
  | verification => "Verification"
  | application => "Application"

def code : Trigger → UInt8
  | system => 0x01
  | verification => 0x20
  | application => 0x40

def ofCode? (byte : UInt8) : Option Trigger :=
  [system, verification, application].find? fun trigger => trigger.code = byte

def ofName? (name : String) : Option Trigger :=
  [system, verification, application].find? fun trigger => trigger.name = name

end Trigger

end NativeContracts
