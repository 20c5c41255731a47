import NativeContracts.Proofs.Dispatch
import NativeContracts.Token

/-! The operations that change a token's records, and what all of them keep. A property
of stores that opening the supply, minting and burning keep is kept by every operation,
however it ends: setup and the work for a block do nothing else, and the methods that
a call can reach only read, apart from the work for a block. -/

namespace NativeContracts.Token

open Run

inductive Operation where
  | setUp
  | mint (address : List UInt8) (amount : Int)
  | burn (address : List UInt8) (amount : Int)
  | onPersist
  | invoke

/-- The machine that an operation leaves behind, whether it failed or not. -/
def Operation.after (token : Token) (machine : Machine) : Operation → Machine
  | setUp => (token.contract.setUp.exec machine).2
  | mint address amount => ((token.ledger.mint address amount).exec machine).2
  | burn address amount => ((token.ledger.burn address amount).exec machine).2
  | onPersist => (token.contract.onPersist.exec machine).2
  | invoke => (token.contract.invoke.exec machine).2

variable {token : Token} {machine : Machine} {p : Machine → Prop} {q : Store → Prop}

theorem contract_seed (token : Token) : token.contract.seed = token.seed := rfl

theorem contract_persist (token : Token) : token.contract.persist = token.persist := rfl

theorem exec_seed (token : Token) (machine : Machine) :
    token.seed.exec machine =
      if token.ledger.isInitialized machine then
        (.error (.violation (.alreadyInitialized token.service)), machine)
      else
        (token.ledger.setSupply 0 >>= fun _ => token.settings.distribution.forM fun grant =>
          token.ledger.mint grant.address grant.amount).exec machine := by
  rw [seed, exec_get_bind]
  split <;> rfl

theorem keeps_seed (hopen : ∀ machine, p machine → token.ledger.isInitialized machine = false →
      p ((token.ledger.setSupply 0).exec machine).2)
    (hmint : ∀ address amount, Keeps p (token.ledger.mint address amount)) :
    Keeps p token.seed := by
  intro machine hp
  rw [exec_seed]
  split
  · exact hp
  · next hopened =>
    have hsupply := hopen machine hp (Bool.eq_false_iff.mpr hopened)
    rw [exec_bind]
    rcases hexec : (token.ledger.setSupply 0).exec machine with ⟨error | _, after⟩ <;>
      rw [hexec] at hsupply
    · exact hsupply
    · exact (Keeps.forM fun grant _ => hmint grant.address grant.amount) after hsupply

theorem persist_eq_mint {address : List UInt8}
    (haddress : token.settings.rewardAddress = some address) (hreward : token.settings.reward ≠ 0) :
    token.persist = token.ledger.mint address token.settings.reward := by
  simp only [persist, haddress, hreward, if_false]

theorem persist_eq_pure
    (h : token.settings.rewardAddress = none ∨ token.settings.reward = 0) :
    token.persist = pure () := by
  unfold persist
  rcases haddress : token.settings.rewardAddress with _ | address
  · rfl
  · have hreward := h.resolve_left (by simp [haddress])
    simp only [hreward, if_true]

/-- The work for a block mints the reward, or it does nothing. -/
theorem persist_cases (token : Token) :
    (token.settings.rewardAddress = none ∨ token.settings.reward = 0) ∨
      ∃ address, token.settings.rewardAddress = some address ∧ token.settings.reward ≠ 0 := by
  rcases haddress : token.settings.rewardAddress with _ | address
  · exact .inl (.inl rfl)
  · by_cases hreward : token.settings.reward = 0
    · exact .inl (.inr hreward)
    · exact .inr ⟨address, rfl, hreward⟩

theorem keeps_persist (hmint : ∀ address amount, Keeps p (token.ledger.mint address amount)) :
    Keeps p token.persist := by
  rcases token.persist_cases with hnone | ⟨address, haddress, hreward⟩
  · rw [persist_eq_pure hnone]
    exact keeps_pure _
  · rw [persist_eq_mint haddress hreward]
    exact hmint _ _

/-- The bodies of a token's methods leave the machine as it is. -/
theorem keeps_body (token : Token) {method : Method} (hmethod : method ∈ token.methods.methods)
    {run : List Item → Run Item} (hhandler : method.handler = .body run) (arguments : List Item) :
    Keeps p (run arguments) := by
  simp only [methods, List.mem_cons, List.not_mem_nil, or_false] at hmethod
  rcases hmethod with rfl | rfl | rfl | rfl | rfl | rfl
  · cases hhandler
  · cases hhandler
    exact keeps_pure _
  · cases hhandler
    exact keeps_pure _
  · cases hhandler
    exact keeps_pure _
  · cases hhandler
    exact keeps_get.bind fun _ => keeps_pure _
  · cases hhandler
    exact (keeps_lift _).bind fun address => keeps_get.bind fun machine =>
      (keeps_lift _).bind fun _ => keeps_pure _

/-- Stacks are no part of the store. -/
theorem keeps_push_store (item : Item) :
    Keeps (fun machine => q machine.store) (Run.push item) := by
  intro machine hq
  rw [exec_push]
  split
  · exact hq
  · split
    · exact hq
    · exact hq

theorem keeps_pop_store : Keeps (fun machine => q machine.store) Run.pop := by
  intro machine hq
  rw [exec_pop]
  split
  · exact hq
  · split
    · exact hq
    · exact hq

theorem Operation.keeps (hopen : ∀ machine, q machine.store →
      token.ledger.isInitialized machine = false →
        q ((token.ledger.setSupply 0).exec machine).2.store)
    (hmint : ∀ address amount,
      Keeps (fun machine => q machine.store) (token.ledger.mint address amount))
    (hburn : ∀ address amount,
      Keeps (fun machine => q machine.store) (token.ledger.burn address amount))
    (operation : Operation) (hq : q machine.store) : q (operation.after token machine).store := by
  have hseed : Keeps (fun machine => q machine.store) token.contract.seed := keeps_seed hopen hmint
  have hpersist : Keeps (fun machine => q machine.store) token.contract.persist :=
    keeps_persist hmint
  cases operation with
  | setUp => exact Contract.keeps_setUp hseed machine hq
  | mint address amount => exact hmint address amount machine hq
  | burn address amount => exact hburn address amount machine hq
  | onPersist => exact Contract.keeps_onPersist hpersist machine hq
  | invoke =>
    refine Contract.keeps_invoke keeps_pop_store keeps_push_store ?_ hpersist machine hq
    intro method hmethod run hhandler arguments
    exact token.keeps_body hmethod hhandler arguments

end NativeContracts.Token
