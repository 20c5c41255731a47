import NativeContracts.Proofs.Accounting
import NativeContracts.Proofs.Accounts
import NativeContracts.Proofs.Rewards

/-! The room that a call makes for itself. A call takes two items off the stack before it does
anything else, and each of them was charged for. The two references that this frees are what
the record of an account is checked for, and more than the result of a token's method takes,
so that no call of a token runs out of references, not even on a full budget. -/

namespace NativeContracts

open Run

/-- More references are wanted than the limit allows. -/
inductive Error.OutOfReferences : Error → Prop where
  | intro (requested limit : Nat) :
      OutOfReferences (.fault (.referenceLimitExceeded requested limit))

/-! ## Items by weight -/

namespace Item

theorem weight_pos (item : Item) : 0 < item.weight := by
  rw [weight_eq]
  exact Nat.succ_pos _

theorem weight_eq_one {item : Item} (h : item.children = []) : item.weight = 1 := by
  rw [weight_eq, h]
  rfl

end Item

/-! ## Runs that need two references at most -/

namespace Run

variable {α β : Type}

/-- Where two references are free the run does not run out of them, and it gives back as many
as it takes. -/
structure Frugal (x : Run α) : Prop where
  keeps : ∀ budget frames,
    Keeps (fun machine => machine.budget = budget ∧ machine.frames = frames) x
  sound : ∀ machine, machine.budget.count + 2 ≤ machine.budget.limit →
    ∀ error, (exec x machine).1 = .error error → ¬error.OutOfReferences

theorem frugal_lift {x : Except Error α} (h : ∀ error, x = .error error → ¬error.OutOfReferences) :
    Frugal (liftM x) :=
  ⟨fun _ _ => keeps_lift x, fun _ _ => h⟩

theorem frugal_pure (a : α) : Frugal (pure a) := by
  refine ⟨fun _ _ => keeps_pure a, fun machine _ error h => ?_⟩
  cases h

theorem frugal_get : Frugal get := by
  refine ⟨fun _ _ => keeps_get, fun machine _ error h => ?_⟩
  cases h

theorem Frugal.bind {x : Run α} {f : α → Run β} (hx : Frugal x) (hf : ∀ a, Frugal (f a)) :
    Frugal (x >>= f) := by
  refine ⟨fun budget frames => (hx.keeps budget frames).bind fun a => (hf a).keeps budget frames,
    fun machine hroom error h => ?_⟩
  have hafter := hx.keeps machine.budget machine.frames machine ⟨rfl, rfl⟩
  have hfirst := hx.sound machine hroom
  rcases hexec : exec x machine with ⟨found | a, after⟩ <;> rw [hexec] at hafter hfirst
  · rw [exec_bind_error f hexec] at h
    cases h
    exact hfirst _ rfl
  · -- The budget is what it was, so that the rest finds the same room.
    rw [exec_bind_ok f hexec] at h
    rw [← hafter.1] at hroom
    exact (hf a).sound after hroom error h

theorem frugal_put (key : Key) (record : Record) : Frugal (put key record) := by
  constructor
  · intro budget frames machine h
    rw [exec_put]
    split
    · exact h
    · exact h
  · intro machine _ error h hout
    cases hout
    rw [exec_put] at h
    rcases hput : machine.store.put key record with found | store <;> rw [hput] at h <;> cases h
    rw [Store.put] at hput
    split at hput <;> cases hput

/-- The record of an account takes no more room than there is. -/
theorem toRecord_sound {account : Account} {budget : Budget} {limits : Limits} {error : Error}
    (hroom : budget.count + 2 ≤ budget.limit) (h : account.toRecord budget limits = .error error) :
    ¬error.OutOfReferences := by
  intro hout
  cases hout
  rcases bind_eq_error_iff.mp h with hitem | ⟨item, -, hencode⟩
  · simp only [Account.toItem, Budget.makeStruct, Budget.check, Account.weights_balance] at hitem
    split at hitem
    · cases hitem
    · have hcheck : ¬budget.limit < min (budget.count + (1 + 1)) Budget.largestCount := by omega
      rw [if_neg hcheck] at hitem
      cases hitem
  · split at hencode <;> cases hencode

theorem frugal_putAccount (key : Key) (account : Account) : Frugal (putAccount key account) := by
  refine ⟨fun budget frames =>
    keeps_putAccount (fun record => (frugal_put key record).keeps budget frames) account,
    fun machine hroom error h => ?_⟩
  rw [exec_putAccount] at h
  rcases hrecord : account.toRecord machine.budget machine.limits with found | record <;>
    rw [hrecord] at h
  · cases h
    exact toRecord_sound hroom hrecord
  · exact (frugal_put key record).sound machine hroom error h

/-- What the run gives takes one reference. -/
def Light (x : Run Item) : Prop :=
  ∀ machine item after, exec x machine = (.ok item, after) → item.weight = 1

theorem light_pure {item : Item} (h : item.children = []) : Light (pure item) := by
  intro machine found after hexec
  cases hexec
  exact Item.weight_eq_one h

theorem Light.bind {x : Run α} {f : α → Run Item} (hf : ∀ a, Light (f a)) : Light (x >>= f) := by
  intro machine item after h
  obtain ⟨a, middle, -, hexec⟩ := exec_bind_eq_ok_iff.mp h
  exact hf a middle item after hexec

end Run

/-! ## What a token does -/

namespace Ledger

theorem balance_sound (ledger : Ledger) (address : List UInt8) (machine : Machine) (error : Error)
    (h : ledger.balance address machine = .error error) : ¬error.OutOfReferences := by
  intro hout
  cases hout
  rcases bind_eq_error_iff.mp h with haccount | ⟨account, -, hbalance⟩
  · unfold Machine.account? at haccount
    split at haccount
    · cases haccount
    · next record hrecord =>
      rcases hread : Account.ofRecord machine.limits record with error | account <;>
        rw [hread] at haccount <;> cases haccount
      rcases Account.ofRecord_error_cases hread with ⟨_, -, herror⟩ | ⟨_, _, -, herror⟩
      · cases herror
      · cases herror
  · cases hbalance

theorem frugal_mint (ledger : Ledger) (address : List UInt8) (amount : Int) :
    Frugal (ledger.mint address amount) := by
  have hamount : ∀ error, checkAmount amount = .error error → ¬error.OutOfReferences := by
    rintro error h ⟨⟩
    unfold checkAmount at h
    split at h <;> cases h
  have hwidth : ∀ kind value error, checkWidth kind value = .error error →
      ¬error.OutOfReferences := by
    rintro kind value error h ⟨⟩
    simp only [checkWidth] at h
    split at h <;> cases h
  have hcredit : Frugal (ledger.credit address amount) :=
    (frugal_lift hamount).bind fun _ => frugal_get.bind fun machine =>
      (frugal_lift (ledger.balance_sound address machine)).bind fun _ =>
        (frugal_lift (hwidth _ _)).bind fun _ => frugal_putAccount _ _
  exact (frugal_lift hamount).bind fun _ => frugal_get.bind fun _ =>
    (frugal_lift (hwidth _ _)).bind fun _ => hcredit.bind fun _ => frugal_put _ _

end Ledger

namespace Token

variable {token : Token} {machine after : Machine} {operation arguments : Item}
  {elements : List Item}

theorem frugal_persist (token : Token) : Frugal token.persist := by
  rcases token.persist_cases with hnone | ⟨address, haddress, hreward⟩
  · rw [persist_eq_pure hnone]
    exact frugal_pure _
  · rw [persist_eq_mint haddress hreward]
    exact token.ledger.frugal_mint _ _

theorem addressArgument_sound (arguments : List Item) (error : Error)
    (h : addressArgument arguments = .error error) : ¬error.OutOfReferences := by
  rintro ⟨⟩
  unfold addressArgument at h
  split at h
  · cases h
  · split at h
    · cases h
    · next address haddress =>
      rcases bind_eq_error_iff.mp h with hcheck | ⟨_, -, hreturn⟩
      · unfold checkAddress at hcheck
        split at hcheck <;> cases hcheck
      · cases hreturn

/-- The work for a block needs the two references of the account that it rewards. -/
theorem frugal_onPersist (token : Token) : Frugal token.contract.onPersist := by
  have hpersist : Frugal (token.contract.persist >>= fun _ => pure (Item.boolean true)) :=
    token.frugal_persist.bind fun _ => frugal_pure _
  refine ⟨fun budget frames => Contract.keeps_onPersist (token.frugal_persist.keeps budget frames),
    fun machine hroom error h => ?_⟩
  rw [Contract.exec_onPersist] at h
  split at h
  · exact hpersist.sound machine hroom error h
  · cases h

theorem light_onPersist (token : Token) : Light token.contract.onPersist := by
  intro machine item after h
  rw [Contract.exec_onPersist] at h
  split at h
  · exact Light.bind (fun _ => light_pure rfl) machine item after h
  · cases h
    exact Item.weight_eq_one rfl

/-- The bodies of a token's methods take no references, and give items without others inside. -/
theorem frugal_body {method : Method} (hmethod : method ∈ token.methods.methods)
    {run : List Item → Run Item} (hhandler : method.handler = .body run) (arguments : List Item) :
    Frugal (run arguments) ∧ Light (run arguments) := by
  simp only [methods, List.mem_cons, List.not_mem_nil, or_false] at hmethod
  rcases hmethod with rfl | rfl | rfl | rfl | rfl | rfl
  · cases hhandler
  · cases hhandler
    exact ⟨frugal_pure _, light_pure rfl⟩
  · cases hhandler
    exact ⟨frugal_pure _, light_pure rfl⟩
  · cases hhandler
    exact ⟨frugal_pure _, light_pure rfl⟩
  · cases hhandler
    exact ⟨frugal_get.bind fun _ => frugal_pure _, Light.bind fun _ => light_pure rfl⟩
  · cases hhandler
    refine ⟨?_, Light.bind fun _ => Light.bind fun _ => Light.bind fun _ => light_pure rfl⟩
    exact (frugal_lift (addressArgument_sound arguments)).bind fun address =>
      frugal_get.bind fun machine =>
        (frugal_lift (token.ledger.balance_sound address machine)).bind fun _ => frugal_pure _

theorem frugal_handle {method : Method} (hmethod : method ∈ token.methods.methods)
    (elements : List Item) :
    Frugal (token.contract.handle method elements) ∧
      Light (token.contract.handle method elements) := by
  unfold Contract.handle
  split
  · exact ⟨token.frugal_onPersist, token.light_onPersist⟩
  · next run hhandler => exact frugal_body hmethod hhandler elements

/-! ## Calls -/

/-- A method that runs where two references are free leaves the budget as it was, does not run
out of it, and gives a result of weight one. -/
theorem runs_frugal {outcome : Except Error Item}
    (h : token.contract.Runs operation elements machine outcome after)
    (hroom : machine.budget.count + 2 ≤ machine.budget.limit) :
    after.budget = machine.budget ∧
      (∀ error, outcome = .error error → ¬error.OutOfReferences) ∧
      ∀ result, outcome = .ok result → result.weight = 1 := by
  obtain ⟨method, hmethod, hexec⟩ := h.exec_handle
  have hmem := (Contract.methodNamed?_eq_some_iff.mp hmethod).1
  obtain ⟨hfrugal, hlight⟩ := frugal_handle hmem elements
  have hkeeps := hfrugal.keeps machine.budget machine.frames machine ⟨rfl, rfl⟩
  have hsound := hfrugal.sound machine hroom
  rw [hexec] at hkeeps hsound
  refine ⟨hkeeps.1, hsound, ?_⟩
  rintro result rfl
  exact hlight machine result after hexec

/-- Once both items are off the stack, a call does not run out of references, and takes one if it
is answered. -/
theorem responds_frugal {outcome : Except Error Bool}
    (h : token.contract.Responds operation arguments machine outcome after)
    (hroom : machine.budget.count + 2 ≤ machine.budget.limit)
    (hword : machine.budget.count + 2 < UInt64.size) :
    (∀ error, outcome = .error error → ¬error.OutOfReferences) ∧
      (outcome = .ok true → after.budget.count = machine.budget.count + 1) := by
  cases h with
  | noElements harray hstruct =>
    refine ⟨?_, fun h => by cases h⟩
    rintro error ⟨⟩ ⟨⟩
  | unnamed helements hname =>
    refine ⟨?_, fun h => by cases h⟩
    rintro error ⟨⟩
  | failed helements hrun =>
    refine ⟨?_, fun h => by cases h⟩
    rintro error ⟨⟩
    exact (runs_frugal hrun hroom).2.1 _ rfl
  | unloaded helements hrun hframes =>
    refine ⟨?_, fun h => by cases h⟩
    rintro error ⟨⟩ ⟨⟩
  | refused helements hrun hframes hcharge =>
    -- The result weighs one, and two references are free.
    obtain ⟨hbudget, -, hweight⟩ := runs_frugal hrun hroom
    rw [hbudget, Budget.charge, hweight _ rfl, if_pos] at hcharge
    · cases hcharge
    · rw [Budget.largestCount]
      omega
  | answered helements hrun hframes hcharge =>
    obtain ⟨hbudget, -, hweight⟩ := runs_frugal hrun hroom
    obtain ⟨-, rfl⟩ := Budget.charge_eq_ok_iff.mp hcharge
    refine ⟨?_, fun _ => ?_⟩
    · rintro error ⟨⟩
    · show _ + _ = _
      rw [hbudget, hweight _ rfl]

/-- Two items that a machine holds and counts leave room for two references when they go. -/
theorem count_without_le {frame : Frame} {rest : List Frame} {items : List Item}
    (hcount : machine.budget.count = Item.weights machine.heldItems)
    (hframes : machine.frames = frame :: rest)
    (hitems : frame.stack.items = operation :: arguments :: items) :
    (machine.without frame rest [operation, arguments] items).budget.count + 2 ≤
      machine.budget.count := by
  have hoperation := operation.weight_pos
  have harguments := arguments.weight_pos
  have hheld : operation.weight + arguments.weight ≤ machine.budget.count := by
    rw [hcount, Machine.heldItems_cons hframes, hitems]
    simp only [List.cons_append, Item.weights_cons]
    omega
  show machine.budget.count - operation.weight - arguments.weight + 2 ≤ _
  omega

/-- On a machine whose count is what its stacks hold, however full the budget is, a call of a token
does not run out of references, and one that is answered leaves fewer behind. The count is a
64-bit word. -/
theorem invoke_within_references (token : Token) (machine : Machine)
    (hcount : machine.budget.count = Item.weights machine.heldItems)
    (hlimit : machine.budget.count ≤ machine.budget.limit)
    (hword : machine.budget.count < UInt64.size) :
    (∀ requested limit, (token.contract.invoke.exec machine).1 ≠
      .error (.fault (.referenceLimitExceeded requested limit))) ∧
    ∀ after, token.contract.invoke.exec machine = (.ok true, after) →
      after.budget.count + 1 ≤ machine.budget.count := by
  obtain ⟨outcome, after, h⟩ := token.contract.exists_answers machine
  rw [h.exec_invoke]
  cases h with
  | uncalled h =>
    refine ⟨?_, ?_⟩
    · rintro requested limit ⟨⟩
    · rintro after ⟨⟩
  | noOperation hcall hitems =>
    refine ⟨?_, ?_⟩
    · rintro requested limit ⟨⟩
    · rintro after ⟨⟩
  | noArguments hcall hitems =>
    refine ⟨?_, ?_⟩
    · rintro requested limit ⟨⟩
    · rintro after ⟨⟩
  | taken hcall hitems h =>
    have hfreed := count_without_le hcount hcall.1 hitems
    have hroom := Nat.le_trans hfreed hlimit
    obtain ⟨herror, hanswered⟩ := responds_frugal h hroom (Nat.lt_of_le_of_lt hfreed hword)
    refine ⟨?_, ?_⟩
    · rintro requested limit rfl
      exact herror _ rfl (.intro requested limit)
    · rintro after ⟨⟩
      have htaken := hanswered rfl
      omega

/-- A token that pays three for every block. -/
def rewarding : Token where
  service := "Rewarding"
  settings := {
    id := 5, name := "Rewarding", symbol := "R", decimals := 0, reward := 3,
    rewardAddress := some (List.replicate 20 7) }

/-- The machine with room for two references, which the call of the token's work for a block
takes both. -/
def brimful (machine : Machine) : Machine :=
  { machine with
    limits := { maxStackSize := 2 }
    budget := { limit := 2, count := 2 }
    frames := [⟨rewarding.contract.script, ⟨[.ofText "onPersist", .array []]⟩⟩] }

theorem exec_invoke_brimful :
    ∃ after, rewarding.contract.invoke.exec (brimful (.start .system)) = (.ok true, after) ∧
      rewarding.ledger.supply after = 3 := by
  refine ⟨_, exec_eq_ok_of_toOption ?_, ?_⟩
  · decide +kernel
  · decide +kernel

/-- The reward is minted, and the result takes one of the two references that were in use. -/
theorem invoke_within_references_brimful :
    (brimful (.start .system)).budget.count = (brimful (.start .system)).budget.limit ∧
      ∃ after, rewarding.contract.invoke.exec (brimful (.start .system)) = (.ok true, after) ∧
        after.budget.count ≤ 1 ∧ rewarding.ledger.supply after = 3 := by
  obtain ⟨-, hanswered⟩ := invoke_within_references rewarding (brimful (.start .system))
    (by decide +kernel) (by decide) (by decide)
  obtain ⟨after, hexec, hsupply⟩ := exec_invoke_brimful
  exact ⟨rfl, after, hexec, Nat.le_of_succ_le_succ (hanswered after hexec), hsupply⟩

end Token

end NativeContracts
