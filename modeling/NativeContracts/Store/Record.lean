import NativeContracts.TwosComplement

/-! A stored record is bytes and a mark that says whether they are final. -/

namespace NativeContracts

/-- A constant record is written once and neither changed nor removed. -/
structure Record where
  bytes : List UInt8
  isConstant : Bool := false
  deriving DecidableEq

namespace Record

def ofInt (n : Int) : Record := { bytes := TwosComplement.encode n }

def toInt (record : Record) : Int := TwosComplement.decode record.bytes

end Record

end NativeContracts
