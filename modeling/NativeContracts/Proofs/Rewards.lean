import NativeContracts.Proofs.Bookkeeping
import NativeContracts.Proofs.Tokens

/-! What a token pays for a block. The work for a block mints the reward to the account that
is set for it, once, whatever the store held. A call of a token writes nothing, unless it
names that work under the trigger for it, and then it pays the same. -/

namespace NativeContracts

open Run TwosComplement

variable {machine later : Machine} {token : Token}

/-! ## What a mint leaves -/

theorem Run.eq_withRecord_of_put {key : Key} {record : Record}
    (h : (Run.put key record).exec machine = (.ok (), later)) :
    later = machine.withRecord key record := by
  rcases exec_put_cases key record machine with hput | ⟨error, hput⟩ <;> rw [hput] at h <;> cases h
  rfl

namespace Ledger

variable {ledger : Ledger} {address : List UInt8} {amount : Int}

/-- Whatever the store held, a credit that succeeds has written the new balance, and the
machine can read it back. -/
theorem credit_eq_ok (hlimit : machine.budget.limit = machine.limits.maxStackSize)
    (h : (ledger.credit address amount).exec machine = (.ok (), later)) :
    ∃ balance, ledger.balance address machine = .ok balance ∧
      Account.ofRecord machine.limits (.ofBalance (balance + amount)) = .ok ⟨balance + amount⟩ ∧
      later = machine.withRecord (ledger.accountKey address) (.ofBalance (balance + amount)) := by
  simp only [credit, putAccount, exec_bind_eq_ok_iff, exec_lift, exec_get, Prod.mk.injEq,
    Except.ok.injEq] at h
  obtain ⟨_, _, ⟨-, rfl⟩, _, _, ⟨rfl, rfl⟩, balance, _, ⟨hbalance, rfl⟩, _, _, ⟨-, rfl⟩, _, _,
    ⟨rfl, rfl⟩, record, _, ⟨hrecord, rfl⟩, hput⟩ := h
  obtain ⟨hwidth, hbudget, hfits, -, rfl⟩ := Account.toRecord_eq_ok_iff.mp hrecord
  refine ⟨balance, hbalance, ?_, eq_withRecord_of_put hput⟩
  have hstack : 2 ≤ machine.limits.maxStackSize := by
    rw [hlimit] at hbudget
    exact Nat.le_trans (Nat.le_min.mpr ⟨Nat.le_add_left 2 _, by decide⟩) hbudget
  exact Account.ofRecord_ofBalance_of_le hstack hfits hwidth

theorem mint_eq_ok (hlimit : machine.budget.limit = machine.limits.maxStackSize)
    (h : (ledger.mint address amount).exec machine = (.ok (), later)) :
    ∃ balance, ledger.balance address machine = .ok balance ∧
      Account.ofRecord machine.limits (.ofBalance (balance + amount)) = .ok ⟨balance + amount⟩ ∧
      later = Machine.withRecord
        (machine.withRecord (ledger.accountKey address) (.ofBalance (balance + amount)))
        ledger.supplyKey (.ofInt (ledger.supply machine + amount)) := by
  simp only [mint, exec_bind_eq_ok_iff, exec_lift, exec_get, Prod.mk.injEq, Except.ok.injEq] at h
  obtain ⟨_, _, ⟨-, rfl⟩, _, _, ⟨rfl, rfl⟩, _, _, ⟨-, rfl⟩, _, middle, hcredit, hsupply⟩ := h
  obtain ⟨balance, hbalance, hread, rfl⟩ := credit_eq_ok hlimit hcredit
  exact ⟨balance, hbalance, hread, eq_withRecord_of_put hsupply⟩

end Ledger

/-! ## The reward -/

/-- From one machine to the other the token paid its reward, once: to the account that is set
for it, and to the supply along with it. No other record changed. -/
structure Token.Rewarded (token : Token) (before later : Machine) : Prop where
  undue : token.settings.rewardAddress = none ∨ token.settings.reward = 0 →
    later.store = before.store
  due : ∀ address, token.settings.rewardAddress = some address → token.settings.reward ≠ 0 →
    (∃ balance, token.ledger.balance address before = .ok balance ∧
      token.ledger.balance address later = .ok (balance + token.settings.reward)) ∧
    token.ledger.supply later = token.ledger.supply before + token.settings.reward ∧
    ∀ key, key ≠ token.ledger.accountKey address → key ≠ token.ledger.supplyKey →
      later.store.get? key = before.store.get? key

namespace Token

theorem rewarded_of_mint {address : List UInt8}
    (haddress : token.settings.rewardAddress = some address) (hreward : token.settings.reward ≠ 0)
    (hlimit : machine.budget.limit = machine.limits.maxStackSize)
    (h : (token.ledger.mint address token.settings.reward).exec machine = (.ok (), later)) :
    token.Rewarded machine later := by
  obtain ⟨balance, hbalance, hread, rfl⟩ := Ledger.mint_eq_ok hlimit h
  have hne := token.ledger.accountKey_ne_supplyKey address
  refine ⟨fun hnone => ?_, fun other hother _ => ?_⟩
  · rcases hnone with hnone | hzero
    · rw [haddress] at hnone
      cases hnone
    · exact absurd hzero hreward
  · obtain rfl : address = other := by simpa [haddress] using hother
    refine ⟨⟨balance, hbalance, ?_⟩, ?_, fun key haccount hsupply => ?_⟩
    · simp only [Ledger.balance, Machine.account?, Machine.withRecord, Store.get?_set_of_ne hne,
        Store.get?_set_self, hread]
      rfl
    · simp only [Ledger.supply, Machine.withRecord, Store.get?_set_self, Record.toInt_ofInt]
    · simp only [Machine.withRecord, Store.get?_set_of_ne hsupply, Store.get?_set_of_ne haccount]

theorem rewarded_of_persist (hlimit : machine.budget.limit = machine.limits.maxStackSize)
    (h : token.persist.exec machine = (.ok (), later)) : token.Rewarded machine later := by
  rcases token.persist_cases with hnone | ⟨address, haddress, hreward⟩
  · rw [persist_eq_pure hnone] at h
    cases h
    refine ⟨fun _ => rfl, fun address hsome hreward => ?_⟩
    rcases hnone with hnone | hzero
    · rw [hnone] at hsome
      cases hsome
    · exact absurd hzero hreward
  · rw [persist_eq_mint haddress hreward] at h
    exact rewarded_of_mint haddress hreward hlimit h

theorem rewarded_of_onPersist {item : Item}
    (h : token.contract.onPersist.exec machine = (.ok item, later))
    (htrigger : machine.trigger = .system)
    (hlimit : machine.budget.limit = machine.limits.maxStackSize) :
    token.Rewarded machine later := by
  rw [Contract.exec_onPersist, if_pos htrigger, exec_bind_eq_ok_iff] at h
  obtain ⟨_, middle, hpersist, hitem⟩ := h
  cases hitem
  exact rewarded_of_persist hlimit hpersist

/-! ## Calls -/

/-- A token's methods: the work for a block, and bodies of other names that are safe. -/
theorem method_cases {method : Method} (hmethod : method ∈ token.methods.methods) :
    method = .onPersist ∨
      ∃ run, method.handler = .body run ∧ method.safe = true ∧
        method.name ≠ Method.onPersistName := by
  simp only [methods, List.mem_cons, List.not_mem_nil, or_false] at hmethod
  rcases hmethod with h | h | h | h | h | h
  · exact .inl h
  all_goals
    right
    subst h
    exact ⟨_, rfl, rfl, by simp [Method.reading, Method.onPersistName]⟩

theorem exec_body {method : Method} (hmethod : method ∈ token.methods.methods)
    {run : List Item → Run Item} (hhandler : method.handler = .body run) (arguments : List Item)
    (machine : Machine) : ((run arguments).exec machine).2 = machine :=
  token.keeps_body (p := fun found => found = machine) hmethod hhandler arguments machine rfl

variable {operation : Item} {elements : List Item} {outcome : Except Error Item}

/-- A method that a call names is the work for a block, or leaves the machine as it is. -/
theorem runs_cases (h : token.contract.Runs operation elements machine outcome later) :
    operation.toBytes = .ok (Utf8.encode Method.onPersistName) ∧
        token.contract.onPersist.exec machine = (outcome, later) ∨
      operation.toBytes ≠ .ok (Utf8.encode Method.onPersistName) ∧ later = machine := by
  cases h with
  | onPersist method hname hhandler h =>
    obtain ⟨hmem, hbytes⟩ := hname
    rcases method_cases hmem with rfl | ⟨run, hbody, -, -⟩
    · exact .inl ⟨hbytes, h⟩
    · rw [hhandler] at hbody
      cases hbody
  | body method hname run hhandler h =>
    obtain ⟨hmem, hbytes⟩ := hname
    rcases method_cases hmem with rfl | ⟨_, _, -, hne⟩
    · cases hhandler
    · have hbody := exec_body hmem hhandler elements machine
      rw [h] at hbody
      refine .inr ⟨fun hasked => hne ?_, hbody⟩
      rw [hasked, Except.ok.injEq] at hbytes
      have hsame := congrArg Utf8.decode? hbytes
      rw [Utf8.decode?_encode, Utf8.decode?_encode, Option.some.injEq] at hsame
      exact hsame.symm

theorem store_eq_or_named (h : token.contract.Runs operation elements machine outcome later) :
    later.store = machine.store ∨
      machine.trigger = .system ∧ operation.toBytes = .ok (Utf8.encode Method.onPersistName) := by
  rcases runs_cases h with ⟨hbytes, hexec⟩ | ⟨-, rfl⟩
  · rw [Contract.exec_onPersist] at hexec
    split at hexec
    · next htrigger => exact .inr ⟨htrigger, hbytes⟩
    · cases hexec
      exact .inl rfl
  · exact .inl rfl

end Token

namespace Contract

/-- The current call is for the contract, and asks by name for its work for a block. -/
inductive AsksOnPersist (contract : Contract) (machine : Machine) : Prop where
  | intro {frame : Frame} {rest : List Frame} {operation arguments : Item} {items : List Item}
      (hcall : contract.CalledFrom machine frame rest)
      (hitems : frame.stack.items = operation :: arguments :: items)
      (hbytes : operation.toBytes = .ok (Utf8.encode "onPersist"))

end Contract

namespace Token

/-- A call writes nothing unless it asks for the work for a block, under its trigger. -/
theorem store_eq_or_asks (token : Token) (machine : Machine) :
    (token.contract.invoke.exec machine).2.store = machine.store ∨
      machine.trigger = .system ∧ token.contract.AsksOnPersist machine := by
  obtain ⟨outcome, later, h⟩ := token.contract.exists_answers machine
  rw [h.exec_invoke]
  cases h with
  | uncalled h => exact .inl rfl
  | noOperation hcall hitems => exact .inl rfl
  | noArguments hcall hitems => exact .inl rfl
  | @taken frame rest operation arguments items outcome later hcall hitems h =>
    have hasks : operation.toBytes = .ok (Utf8.encode Method.onPersistName) →
        token.contract.AsksOnPersist machine := .intro hcall hitems
    cases h with
    | noElements harray hstruct => exact .inl rfl
    | unnamed helements hname => exact .inl rfl
    | failed helements hrun => exact (store_eq_or_named hrun).imp_right (And.imp_right hasks)
    | unloaded helements hrun hframes =>
      exact (store_eq_or_named hrun).imp_right (And.imp_right hasks)
    | refused helements hrun hframes hcharge =>
      exact (store_eq_or_named hrun).imp_right (And.imp_right hasks)
    | answered helements hrun hframes hcharge =>
      exact (store_eq_or_named hrun).imp_right (And.imp_right hasks)

theorem rewarded_of_invoke (htrigger : machine.trigger = .system)
    (hlimit : machine.budget.limit = machine.limits.maxStackSize)
    (hasks : token.contract.AsksOnPersist machine)
    (h : token.contract.invoke.exec machine = (.ok true, later)) :
    token.Rewarded machine later := by
  obtain ⟨outcome, found, hanswers⟩ := token.contract.exists_answers machine
  have hsame := hanswers.exec_invoke.symm.trans h
  cases hsame
  obtain ⟨hcalled, hasked, hbytes⟩ := hasks
  cases hanswers with
  | taken hcall hitems h =>
    obtain ⟨rfl, rfl⟩ := hcalled.unique hcall
    rw [hasked] at hitems
    cases hitems
    cases h with
    | answered helements hrun hframes hcharge =>
      rcases runs_cases hrun with ⟨-, hexec⟩ | ⟨hother, -⟩
      · obtain ⟨hundue, hdue⟩ := rewarded_of_onPersist hexec htrigger hlimit
        exact ⟨hundue, hdue⟩
      · exact absurd hbytes hother

/-- The methods that are marked safe leave the machine as it is. -/
theorem exec_handle_of_safe {method : Method} (hmethod : method ∈ token.methods.methods)
    (hsafe : method.safe = true) (arguments : List Item) (machine : Machine) :
    ((token.contract.handle method arguments).exec machine).2 = machine := by
  rcases method_cases hmethod with rfl | ⟨run, hhandler, -, -⟩
  · cases hsafe
  · rw [Contract.handle, hhandler]
    exact exec_body hmethod hhandler arguments machine

end Token

end NativeContracts
