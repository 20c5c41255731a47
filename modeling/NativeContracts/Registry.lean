import NativeContracts.Contract
import Std.Data.HashMap

/-! The contracts of a node in the order in which they were registered, with an
index by service and one by id. No two contracts share either, so that a call
reaches at most one of them. -/

namespace NativeContracts

structure Registry where
  contracts : Array Contract := #[]
  services : Std.HashMap Service Nat := {}
  ids : Std.HashMap Int32 Nat := {}

namespace Registry

def findService? (registry : Registry) (service : Service) : Option Contract :=
  registry.services[service]?.bind (registry.contracts[·]?)

def findId? (registry : Registry) (id : Int32) : Option Contract :=
  registry.ids[id]?.bind (registry.contracts[·]?)

/-- The contract at a service, if it has that very name: names can share a service. -/
def findNamed? (registry : Registry) (service : Service) (name : String) : Option Contract :=
  (registry.findService? service).filter (·.name = name)

def findName? (registry : Registry) (name : String) : Option Contract :=
  registry.findNamed? (.ofName name) name

def isNative (registry : Registry) (service : Service) : Bool :=
  registry.services.contains service

def register (registry : Registry) (contract : Contract) : Except Error Registry :=
  match registry.findService? contract.service with
  | some owner =>
    .error (.collision (.sameService owner.name contract.name contract.service))
  | none =>
    match registry.findId? contract.id with
    | some owner => .error (.collision (.sameId owner.name contract.name contract.id))
    | none =>
      let position := registry.contracts.size
      .ok {
        contracts := registry.contracts.push contract
        services := registry.services.insert contract.service position
        ids := registry.ids.insert contract.id position }

/-- Lets the contract that the current call addresses answer it, if there is one. -/
def invoke (registry : Registry) : Run Bool := do
  match (← get).declaredCall?.bind registry.findService? with
  | some contract => contract.invoke
  | none => return false

def setUpAll (registry : Registry) : Run Unit :=
  registry.contracts.toList.forM fun contract => do
    let _ ← contract.setUp

/-- Has every contract do its work for a block, and tells whether all of them did. -/
def onPersistAll (registry : Registry) : Run Bool :=
  registry.contracts.toList.foldlM (fun all contract => do
    let item ← contract.onPersist
    match item.toBool with
    | .error fault => Run.fail fault
    | .ok ran => return all && ran) true

end Registry

end NativeContracts
