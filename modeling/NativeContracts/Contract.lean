import NativeContracts.Method

/-! Contracts, and how calls reach them. A contract answers the calls that a script
declares to its service: it takes the method's name and the arguments off the
current stack, runs the method and leaves the result there. Its first setup belongs
to the application trigger, and its work for a block to the system trigger. -/

namespace NativeContracts

structure Contract where
  name : String
  id : Int32
  service : Service
  methods : MethodTable := {}
  /-- The first setup of the contract's records. -/
  seed : Run Unit := pure ()
  /-- What the contract does for each block. -/
  persist : Run Unit := pure ()

namespace Contract

/-- A contract at the service of its name, with no methods and hooks of its own. -/
def named (name : String) (id : Int32) : Contract := { name, id, service := .ofName name }

def withMethod (contract : Contract) (method : Method) : Except Error Contract :=
  match contract.methods.insert? method with
  | some methods => .ok { contract with methods }
  | none => .error (.duplicateMethod contract.name method.name)

/-- The script that calls the contract. -/
def script (contract : Contract) : Script := .calling contract.service

def setUp (contract : Contract) : Run Bool := do
  let trigger := (← get).trigger
  if trigger ≠ .application then throw (.wrongTrigger "initialize" .application trigger)
  contract.seed
  return true

/-- Does the work for a block, and tells whether the trigger was the one for it. -/
def onPersist (contract : Contract) : Run Item := do
  if (← get).trigger ≠ .system then return .boolean false
  contract.persist
  return .boolean true

def handle (contract : Contract) (method : Method) (arguments : List Item) : Run Item :=
  match method.handler with
  | .onPersist => contract.onPersist
  | .body run => run arguments

/-- The method that an item names, if its bytes are text and the text is a name. -/
def methodNamed? (contract : Contract) (operation : Item) : Option Method :=
  operation.toText.toOption.bind contract.methods.get?

/-- Answers the current call. `false` means that the call is for another service, or
that it names no method. -/
def invoke (contract : Contract) : Run Bool := do
  if (← get).declaredCall? ≠ some contract.service then return false
  let operation ← Run.pop
  let arguments ← Run.pop
  match arguments.toItems with
  | .error fault => Run.fail fault
  | .ok arguments =>
    match contract.methodNamed? operation with
    | none => return false
    | some method =>
      let result ← contract.handle method arguments
      Run.push result
      return true

/-- Calls a method with an empty store, and moves its result to the stack of results. -/
def trial (contract : Contract) (operation : String) (arguments : List Item) : Run Unit := do
  Run.load contract.script
  Run.push (.array arguments)
  Run.push (.ofText operation)
  if ← contract.invoke then
    let result ← Run.pop
    Run.pushResult result

/-- The machine that `trial` leaves behind. -/
def testCall (contract : Contract) (operation : String) (arguments : List Item) :
    Except Error Machine :=
  match (contract.trial operation arguments).run.run (.start .application) with
  | (.ok (), machine) => .ok machine
  | (.error error, _) => .error error

end Contract

end NativeContracts
