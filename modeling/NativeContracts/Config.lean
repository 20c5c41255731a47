import NativeContracts.Limits

/-! Configuration of a node: the limits of its executions, and a section for each
token, with accounts as hexadecimal text. What a section leaves out has the default
of the gas token. -/

namespace NativeContracts

/-- An amount for an account, minted once. -/
structure Allotment where
  account : String
  amount : UInt64
  deriving DecidableEq

structure TokenSection where
  service : String := "Neo.Native.Tokens.GAS"
  id : Int32 := -2
  name : String := "GAS"
  symbol : String := "gas"
  decimals : UInt8 := 8
  distribution : List Allotment := []
  reward : UInt64 := 0
  rewardAccount : Option String := none
  deriving DecidableEq

structure Config where
  limits : Limits := {}
  tokens : List TokenSection := []
  deriving DecidableEq

/-- Which constraint a well-formed configuration breaks. -/
inductive Constraint where
  | stackSize
  | integerSize
  | serviceName
  | rewardAccount (service : String)
  deriving DecidableEq

inductive ConfigError where
  /-- The file is missing, or it is no text. -/
  | unreadable
  /-- The text is not the document of a configuration. -/
  | malformed
  | invalid (constraint : Constraint)
  deriving DecidableEq

def Constraint.message : Constraint → String
  | stackSize => "vm.max_stack_size must be greater than zero"
  | integerSize => "vm.max_integer_size must be greater than zero"
  | serviceName => "native token service_name must not be empty"
  | rewardAccount service => s!"{service}: reward_per_block requires reward_account"

def TokenSection.broken? (token : TokenSection) : Option Constraint :=
  if token.service = "" then some .serviceName
  else if 0 < token.reward ∧ token.rewardAccount = none then some (.rewardAccount token.service)
  else none

namespace Config

/-- The first constraint that a configuration breaks. -/
def broken? (config : Config) : Option Constraint :=
  if config.limits.maxStackSize = 0 then some .stackSize
  else if config.limits.maxIntegerSize = 0 then some .integerSize
  else config.tokens.findSome? TokenSection.broken?

def checked (config : Config) : Except ConfigError Config :=
  match config.broken? with
  | some constraint => .error (.invalid constraint)
  | none => .ok config

end Config

end NativeContracts
