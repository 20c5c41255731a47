import NativeContracts.Budget
import NativeContracts.Error
import NativeContracts.Item.Decode
import NativeContracts.Item.Encode
import NativeContracts.Store.Record

/-! What a token keeps for one account. As an item an account is a struct with the
balance as its only field, and as a record it is the stored form of that item. A
balance that no integer conversion would read is refused when it is written. -/

namespace NativeContracts

structure Account where
  balance : Int := 0
  deriving DecidableEq

namespace Account

/-- The item of an account, which has to fit in the budget of those who will hold it. -/
def toItem (account : Account) (budget : Budget) : Except Error Item := do
  let width := TwosComplement.width account.balance
  if integerWidth < width then throw (.malformed (.balanceTooWide width))
  budget.makeStruct [.integer account.balance]

def ofItem (item : Item) : Except Error Account :=
  match item.toFields with
  | .error fault => .error (.malformed (.notStruct fault))
  | .ok [field] =>
    match field.toInt with
    | .error fault => .error (.malformed (.balance fault))
    | .ok balance => .ok ⟨balance⟩
  | .ok fields => .error (.malformed (.fieldCount fields.length))

def toRecord (account : Account) (budget : Budget) (limits : Limits) : Except Error Record := do
  let item ← account.toItem budget
  match item.encode limits with
  | .error fault => throw (.store (.unwritable fault))
  | .ok bytes => return { bytes }

def ofRecord (limits : Limits) (record : Record) : Except Error Account :=
  match Item.decode limits record.bytes with
  | .error fault => .error (.store (.unreadable fault))
  | .ok item => ofItem item

end Account

end NativeContracts
