import NativeContracts.Registry
import NativeContracts.Token

/-! Descriptions of tokens, machines and registries on one line, for a reader of
logs. Names stand between quotes, and addresses are lists of numbers. -/

namespace NativeContracts

/-- Texts between commas. -/
def commaSeparated (texts : List String) : String := ", ".intercalate texts

def describeAddress (address : List UInt8) : String :=
  "[" ++ commaSeparated (address.map fun byte => toString byte.toNat) ++ "]"

def Grant.describe (grant : Grant) : String :=
  s!"({describeAddress grant.address}, {grant.amount})"

/-- A name with fields, each with its own text. -/
def describeFields (name : String) (fields : List (String × String)) : String :=
  let written := commaSeparated (fields.map fun field => s!"{field.1}: {field.2}")
  name ++ " \x7b " ++ written ++ " \x7d"

def TokenSettings.describe (settings : TokenSettings) : String :=
  describeFields "TokenSettings" [
    ("id", toString settings.id.toInt),
    ("name", Quoted.text settings.name),
    ("symbol", Quoted.text settings.symbol),
    ("decimals", toString settings.decimals.toNat),
    ("initial_distribution",
      "[" ++ commaSeparated (settings.distribution.map Grant.describe) ++ "]"),
    ("reward_per_block", toString settings.reward),
    ("reward_account", match settings.rewardAddress with
      | some address => s!"Some({describeAddress address})"
      | none => "None")]

def Token.describe (token : Token) : String :=
  describeFields "Nep5Token" [
    ("service_name", Quoted.text token.service),
    ("settings", token.settings.describe)]

def Machine.describe (machine : Machine) : String :=
  describeFields "ApplicationEngine" [
    ("trigger", machine.trigger.name),
    ("invocation_depth", toString machine.frames.length),
    ("references", toString machine.budget.count),
    ("result_stack", toString machine.results.length)]

def Registry.describe (registry : Registry) : String :=
  "[" ++ commaSeparated (registry.contracts.toList.map fun c => Quoted.text c.name) ++ "]"

end NativeContracts
