import NativeContracts.Config
import NativeContracts.Document.Json
import NativeContracts.Document.Toml
import NativeContracts.Text.Utf8

/-! Configurations as documents. Every record is a table or a list of its fields, and
all of them have defaults, but for an allotment's account and amount. A list in TOML
may go on after the last field. What is read is checked before it is handed out. -/

namespace NativeContracts

namespace Document

def limits? (surplus : Bool) (document : Document) : Option Limits := do
  let defaults : Limits := {}
  match ← document.fields? surplus
    ["max_stack_size", "max_item_size", "max_integer_size", "max_invocation_stack_size"] with
  | [stack, item, width, depth] =>
    let size (field : Option Document) (default : Nat) : Option Nat :=
      orDefault? (fun d => d.word?.map UInt64.toNat) default field
    return ⟨← size stack defaults.maxStackSize, ← size item defaults.maxItemSize,
      ← size width defaults.maxIntegerSize, ← size depth defaults.maxInvocationDepth⟩
  | _ => none

def allotment? (surplus : Bool) (document : Document) : Option Allotment := do
  match ← document.fields? surplus ["account", "amount"] with
  | [some account, some amount] => return ⟨← account.text?, ← amount.word?⟩
  | _ => none

def token? (surplus : Bool) (document : Document) : Option TokenSection := do
  let defaults : TokenSection := {}
  match ← document.fields? surplus ["service_name", "id", "name", "symbol", "decimals",
    "initial_distribution", "reward_per_block", "reward_account"] with
  | [service, id, name, symbol, decimals, distribution, reward, rewardAccount] =>
    return {
      service := ← orDefault? text? defaults.service service
      id := ← orDefault? id? defaults.id id
      name := ← orDefault? text? defaults.name name
      symbol := ← orDefault? text? defaults.symbol symbol
      decimals := ← orDefault? byte? defaults.decimals decimals
      distribution :=
        ← orDefault? (list? (allotment? surplus)) defaults.distribution distribution
      reward := ← orDefault? word? defaults.reward reward
      rewardAccount := ← orDefault? (nullable? text?) defaults.rewardAccount rewardAccount }
  | _ => none

def config? (surplus : Bool) (document : Document) : Option Config := do
  match ← document.fields? surplus ["vm", "native_tokens"] with
  | [limits, tokens] =>
    return ⟨← orDefault? (limits? surplus) {} limits,
      ← orDefault? (list? (token? surplus)) [] tokens⟩
  | _ => none

end Document

namespace Config

def ofDocument (surplus : Bool) (document : Option Document) : Except ConfigError Config :=
  match document.bind (Document.config? surplus) with
  | some config => config.checked
  | none => .error .malformed

def ofJson (text : String) : Except ConfigError Config := ofDocument false (Json.read? text)

def ofToml (text : String) : Except ConfigError Config := ofDocument true (Toml.read? text)

/-- The configuration in a file with the given content, if there is a file. -/
def ofFile (content : Option (List UInt8)) : Except ConfigError Config :=
  match content.bind Utf8.decode? with
  | some text => ofToml text
  | none => .error .unreadable

end Config

def Limits.json (limits : Limits) : String :=
  Json.writeTable [
    ("max_stack_size", toString limits.maxStackSize),
    ("max_item_size", toString limits.maxItemSize),
    ("max_integer_size", toString limits.maxIntegerSize),
    ("max_invocation_stack_size", toString limits.maxInvocationDepth)]

def Allotment.json (allotment : Allotment) : String :=
  Json.writeTable [
    ("account", Json.writeText allotment.account),
    ("amount", toString allotment.amount.toNat)]

def TokenSection.json (token : TokenSection) : String :=
  Json.writeTable [
    ("service_name", Json.writeText token.service),
    ("id", toString token.id.toInt),
    ("name", Json.writeText token.name),
    ("symbol", Json.writeText token.symbol),
    ("decimals", toString token.decimals.toNat),
    ("initial_distribution", Json.writeList (token.distribution.map Allotment.json)),
    ("reward_per_block", toString token.reward.toNat),
    ("reward_account", match token.rewardAccount with
      | some account => Json.writeText account
      | none => "null")]

def Config.json (config : Config) : String :=
  Json.writeTable [
    ("vm", config.limits.json),
    ("native_tokens", Json.writeList (config.tokens.map TokenSection.json))]

end NativeContracts
