import NativeContracts.Config
import NativeContracts.Registry
import NativeContracts.Token

/-! The tokens that a configuration asks for. An account's text may begin with any
number of `0x`, and the rest has to spell out a whole address. -/

namespace NativeContracts

def stripMarks : List Char → List Char
  | '0' :: 'x' :: rest => stripMarks rest
  | text => text

def decodeAddress (text : String) : Except Error (List UInt8) := do
  match Hex.decode (Utf8.encode (String.ofList (stripMarks text.toList))) with
  | .error fault => throw (.refused (.badHex text fault))
  | .ok address =>
    checkAddress address
    return address

def Grant.ofAllotment (allotment : Allotment) : Except Error Grant := do
  return ⟨← decodeAddress allotment.account, allotment.amount.toNat⟩

namespace TokenSettings

/-- A reward without an account is left out. -/
def ofSection (token : TokenSection) : Except Error TokenSettings := do
  let settings : TokenSettings := {
    id := token.id
    name := token.name
    symbol := token.symbol
    decimals := token.decimals
    distribution := ← token.distribution.mapM Grant.ofAllotment }
  match token.rewardAccount with
  | none => return settings
  | some account =>
    return { settings with
      rewardAddress := some (← decodeAddress account)
      reward := token.reward.toNat }

end TokenSettings

def Token.ofSection (token : TokenSection) : Except Error Token := do
  Token.make token.service (← TokenSettings.ofSection token)

def Registry.ofConfig (config : Config) : Except Error Registry :=
  config.tokens.foldlM (fun registry token => do
    registry.register (← Token.ofSection token).contract) {}

end NativeContracts
