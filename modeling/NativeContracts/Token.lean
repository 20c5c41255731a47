import NativeContracts.Contract
import NativeContracts.Ledger

/-! Tokens are contracts over a ledger. Setup mints the first distribution, once;
the work for a block mints a reward, if an account is set for it. The methods only
read: the token's description, its supply and balances. -/

namespace NativeContracts

/-- An amount for an address. -/
structure Grant where
  address : List UInt8
  amount : Int
  deriving DecidableEq

structure TokenSettings where
  id : Int32
  name : String
  symbol : String
  decimals : UInt8
  /-- Minted once, when the contract is set up. -/
  distribution : List Grant := []
  /-- Minted to `rewardAddress` for every block. -/
  reward : Int := 0
  rewardAddress : Option (List UInt8) := none
  deriving DecidableEq

def checkAddress (address : List UInt8) : Except Error Unit :=
  if address.length ≠ addressSize then .error (.refused (.accountLength address.length))
  else .ok ()

namespace TokenSettings

/-- All addresses have to be whole before any amount is looked at. -/
def check (settings : TokenSettings) : Except Error Unit := do
  (settings.distribution.map (·.address) ++ settings.rewardAddress.toList).forM checkAddress
  (settings.distribution.map (·.amount) ++ [settings.reward]).forM fun amount =>
    if amount < 0 then throw (.refused (.negativeAmount amount)) else pure ()

end TokenSettings

structure Token where
  service : String
  settings : TokenSettings
  deriving DecidableEq

namespace Token

def make (service : String) (settings : TokenSettings) : Except Error Token := do
  settings.check
  return ⟨service, settings⟩

def ledger (token : Token) : Ledger := ⟨token.settings.id⟩

/-- The address that a call's first argument gives. -/
def addressArgument (arguments : List Item) : Except Error (List UInt8) := do
  match arguments.head? with
  | none => throw (.refused .missingAccount)
  | some argument =>
    match argument.toBytes with
    | .error fault => throw (.refused (.badAccount fault))
    | .ok address =>
      checkAddress address
      return address

def methods (token : Token) : MethodTable where
  methods := [
    .onPersist,
    .reading "name" 0 fun _ => return .ofText token.settings.name,
    .reading "symbol" 0 fun _ => return .ofText token.settings.symbol,
    .reading "decimals" 0 fun _ => return .integer token.settings.decimals.toNat,
    .reading "totalSupply" 1000000 fun _ => return .integer (token.ledger.supply (← get)),
    .reading "balanceOf" 1000000 fun arguments => do
      let address ← addressArgument arguments
      return .integer (← token.ledger.balance address (← get))]
  nodup := by simp [Method.onPersist, Method.onPersistName, Method.reading]

def seed (token : Token) : Run Unit := do
  if token.ledger.isInitialized (← get) then
    throw (.violation (.alreadyInitialized token.service))
  token.ledger.setSupply 0
  token.settings.distribution.forM fun grant => token.ledger.mint grant.address grant.amount

def persist (token : Token) : Run Unit := do
  match token.settings.rewardAddress with
  | none => return
  | some address =>
    if token.settings.reward = 0 then return
    token.ledger.mint address token.settings.reward

def contract (token : Token) : Contract :=
  { Contract.named token.service token.settings.id with
    methods := token.methods
    seed := token.seed
    persist := token.persist }

end Token

end NativeContracts
