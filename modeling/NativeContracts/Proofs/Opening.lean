import NativeContracts.Proofs.Representation
import NativeContracts.Proofs.Rewards

/-! A token is set up once. Its supply record is the latch: setup refuses when the record is
there, and writes it before it mints anything. Along a run from a store without records of
the token, the record is there from the first operation on that opens the token, and not
before: a setup under its trigger, even one that fails half way, and whatever mints or burns. -/

namespace NativeContracts

open Run

variable {machine : Machine}

namespace Ledger

/-! ## The supply record -/

/-- The supply is on record after the run if it was before, or if the run succeeded. -/
def Latches (ledger : Ledger) (x : Run Unit) : Prop :=
  ∀ machine, ledger.isInitialized (x.exec machine).2 = true ↔
    ledger.isInitialized machine = true ∨ (x.exec machine).1 = .ok ()

theorem latches_setSupply (ledger : Ledger) (value : Int) :
    ledger.Latches (ledger.setSupply value) := by
  intro machine
  rcases exec_put_cases ledger.supplyKey (.ofInt value) machine with hput | ⟨error, hput⟩
  · rw [setSupply, hput]
    simp [isInitialized, Machine.withRecord, Store.contains]
  · rw [setSupply, hput]
    simp

/-- Writing an account leaves the supply record as it was, there or not. -/
theorem keeps_isInitialized_put (ledger : Ledger) (address : List UInt8) (opened : Bool)
    (record : Record) :
    Keeps (fun machine => ledger.isInitialized machine = opened)
      (Run.put (ledger.accountKey address) record) := by
  intro machine h
  rcases exec_put_cases (ledger.accountKey address) record machine with hput | ⟨error, hput⟩ <;>
    rw [hput]
  · rw [isInitialized, Store.contains, Machine.withRecord,
      Store.get?_set_of_ne (ledger.accountKey_ne_supplyKey address).symm]
    exact h
  · exact h

theorem isInitialized_credit (ledger : Ledger) (address : List UInt8) (amount : Int)
    (machine : Machine) :
    ledger.isInitialized ((ledger.credit address amount).exec machine).2 =
      ledger.isInitialized machine :=
  keeps_credit (ledger.keeps_isInitialized_put address _) amount machine rfl

theorem isInitialized_debit (ledger : Ledger) (address : List UInt8) (amount : Int)
    (machine : Machine) :
    ledger.isInitialized ((ledger.debit address amount).exec machine).2 =
      ledger.isInitialized machine :=
  keeps_debit (ledger.keeps_isInitialized_put address _) amount machine rfl

theorem latches_mint (ledger : Ledger) (address : List UInt8) (amount : Int) :
    ledger.Latches (ledger.mint address amount) := by
  intro machine
  have hcredit := ledger.isInitialized_credit address amount machine
  rw [exec_mint]
  split
  · simp
  · split
    · simp
    · rw [exec_bind]
      rcases hexec : (ledger.credit address amount).exec machine with ⟨error | _, after⟩ <;>
        rw [hexec] at hcredit <;> rw [← hcredit]
      · simp
      · exact ledger.latches_setSupply _ after

theorem latches_burn (ledger : Ledger) (address : List UInt8) (amount : Int) :
    ledger.Latches (ledger.burn address amount) := by
  intro machine
  have hdebit := ledger.isInitialized_debit address amount machine
  rw [exec_burn]
  rcases hexec : (ledger.debit address amount).exec machine with ⟨error | _, after⟩ <;>
    rw [hexec] at hdebit <;> rw [← hdebit]
  · simp
  · dsimp only
    split
    · simp
    · exact ledger.latches_setSupply _ after

/-! ## What a mint does not answer -/

variable {name : String}

theorem balance_ne_violation (ledger : Ledger) (address : List UInt8) (machine : Machine)
    (cause : Violation) : ledger.balance address machine ≠ .error (.violation cause) := by
  intro h
  rcases bind_eq_error_iff.mp h with h | ⟨account, -, h⟩
  · unfold Machine.account? at h
    rcases hrecord : machine.store.get? (ledger.accountKey address) with _ | record <;>
      rw [hrecord] at h
    · cases h
    · rcases hread : Account.ofRecord machine.limits record with error | account <;>
        simp only [hread] at h <;> cases h
      exact Account.ofRecord_ne_violation cause hread
  · cases h

theorem avoids_put (key : Key) (record : Record) :
    Avoids (.violation (.alreadyInitialized name)) (Run.put key record) := by
  intro machine
  rw [exec_put, Store.put]
  rcases machine.store.get? key with _ | ⟨bytes, _ | _⟩ <;> simp

theorem avoids_putAccount (key : Key) (account : Account) :
    Avoids (.violation (.alreadyInitialized name)) (Run.putAccount key account) := by
  intro machine
  rw [exec_putAccount]
  rcases hrecord : account.toRecord machine.budget machine.limits with error | record
  · intro h
    cases h
    exact Account.toRecord_ne_violation _ hrecord
  · exact avoids_put key record machine

/-- That a token is set up already is for its setup to say, and for nothing else. -/
theorem avoids_mint (ledger : Ledger) (address : List UInt8) (amount : Int) :
    Avoids (.violation (.alreadyInitialized name)) (ledger.mint address amount) := by
  have hamount : checkAmount amount ≠ .error (.violation (.alreadyInitialized name)) := by
    unfold checkAmount
    split <;> simp
  have hwidth : ∀ kind value,
      checkWidth kind value ≠ .error (.violation (.alreadyInitialized name)) := by
    intro kind value
    simp only [checkWidth]
    split <;> simp
  have hcredit : Avoids (.violation (.alreadyInitialized name)) (ledger.credit address amount) :=
    (avoids_lift hamount).bind fun _ => avoids_get.bind fun machine =>
      (avoids_lift (ledger.balance_ne_violation address machine _)).bind fun balance =>
        (avoids_lift (hwidth _ _)).bind fun _ => avoids_putAccount _ _
  exact (avoids_lift hamount).bind fun _ => avoids_get.bind fun machine =>
    (avoids_lift (hwidth _ _)).bind fun _ => hcredit.bind fun _ => avoids_put _ _

end Ledger

namespace Token

variable {token : Token}

/-! ## What opens a token -/

/-- The work for a block, done on the machine, mints the token's reward. -/
structure MintsReward (token : Token) (machine : Machine) : Prop where
  trigger_eq : machine.trigger = .system
  due : ∃ address, token.settings.rewardAddress = some address ∧ token.settings.reward ≠ 0
  done : (token.contract.onPersist.exec machine).1 = .ok (.boolean true)

/-- The operations that put the supply on record: a setup tried under its trigger, a mint or a
burn that succeeds, and the work for a block if it mints the reward, asked for directly or by
a call that names it. -/
inductive Opens (token : Token) (machine : Machine) : Operation → Prop where
  | setUp (h : machine.trigger = .application) : Opens token machine .setUp
  | mint {address : List UInt8} {amount : Int}
      (h : ((token.ledger.mint address amount).exec machine).1 = .ok ()) :
      Opens token machine (.mint address amount)
  | burn {address : List UInt8} {amount : Int}
      (h : ((token.ledger.burn address amount).exec machine).1 = .ok ()) :
      Opens token machine (.burn address amount)
  | onPersist (h : token.MintsReward machine) : Opens token machine .onPersist
  | invoke {frame : Frame} {rest : List Frame} {operation arguments : Item}
      {elements items : List Item} (hcall : token.contract.CalledFrom machine frame rest)
      (hitems : frame.stack.items = operation :: arguments :: items)
      (helements : arguments = .array elements ∨ arguments = .struct elements)
      (hbytes : operation.toBytes = .ok (Utf8.encode "onPersist"))
      (h : token.MintsReward (machine.without frame rest [operation, arguments] items)) :
      Opens token machine .invoke

/-! ## The record is there from the first such operation on -/

theorem isInitialized_setUp (h : machine.trigger = .application) :
    token.ledger.isInitialized (token.contract.setUp.exec machine).2 = true := by
  have hseed : token.ledger.isInitialized (token.seed.exec machine).2 = true := by
    rw [exec_seed]
    split
    · assumption
    · next hclosed =>
      have hnone : machine.store.get? token.ledger.supplyKey = none := by
        simpa [Ledger.isInitialized, Store.contains] using hclosed
      have hset : (token.ledger.setSupply 0).exec machine =
          (.ok (), machine.withRecord token.ledger.supplyKey (.ofInt 0)) := by
        rw [Ledger.setSupply, exec_put, Store.put_eq_ok (by simp [hnone])]
        rfl
      rw [exec_bind_ok _ hset]
      -- The mints that follow can fail, but no record is lost.
      refine (Keeps.forM fun grant _ => Ledger.keeps_mint_of_allowsWrites
        (token.ledger.allowsWrites_contains token.ledger.supplyKey) _ _) _ ?_
      simp [Machine.withRecord, Store.contains]
  rw [Contract.exec_setUp, if_pos h, exec_bind, contract_seed]
  rcases hexec : token.seed.exec machine with ⟨error | _, after⟩ <;> rw [hexec] at hseed
  · exact hseed
  · exact hseed

theorem isInitialized_onPersist (token : Token) (machine : Machine) :
    token.ledger.isInitialized (token.contract.onPersist.exec machine).2 = true ↔
      token.ledger.isInitialized machine = true ∨ token.MintsReward machine := by
  by_cases htrigger : machine.trigger = .system
  · have hexec := Contract.exec_onPersist token.contract machine
    rw [if_pos htrigger, contract_persist] at hexec
    rcases token.persist_cases with hnone | ⟨address, haddress, hreward⟩
    · rw [persist_eq_pure hnone] at hexec
      rw [hexec]
      refine iff_self_or.mpr fun h => ?_
      obtain ⟨address, haddress, hreward⟩ := h.due
      rcases hnone with hnone | hzero
      · rw [haddress] at hnone
        cases hnone
      · exact absurd hzero hreward
    · have hmint := token.ledger.latches_mint address token.settings.reward machine
      rw [persist_eq_mint haddress hreward] at hexec
      rcases hresult : (token.ledger.mint address token.settings.reward).exec machine with
        ⟨error | _, after⟩ <;> rw [hresult] at hmint
      · rw [exec_bind_error _ hresult] at hexec
        rw [hexec, hmint]
        refine or_congr_right (iff_of_false (by simp) fun h => ?_)
        have hdone := h.done
        rw [hexec] at hdone
        cases hdone
      · rw [exec_bind_ok _ hresult] at hexec
        rw [hexec]
        refine iff_of_true (hmint.mpr (.inr rfl))
          (.inr ⟨htrigger, ⟨address, haddress, hreward⟩, ?_⟩)
        rw [hexec]
        rfl
  · rw [Contract.exec_onPersist, if_neg htrigger]
    exact iff_self_or.mpr fun h => absurd h.trigger_eq htrigger

variable {operation arguments : Item} {elements : List Item} {later : Machine}

theorem isInitialized_runs {outcome : Except Error Item}
    (h : token.contract.Runs operation elements machine outcome later) :
    token.ledger.isInitialized later = true ↔ token.ledger.isInitialized machine = true ∨
      operation.toBytes = .ok (Utf8.encode "onPersist") ∧ token.MintsReward machine := by
  rcases runs_cases h with ⟨hbytes, hexec⟩ | ⟨hother, rfl⟩
  · have honPersist := token.isInitialized_onPersist machine
    rw [hexec] at honPersist
    rw [honPersist]
    exact or_congr_right (iff_and_self.mpr fun _ => hbytes)
  · exact iff_self_or.mpr fun hasked => absurd hasked.1 hother

theorem isInitialized_responds {outcome : Except Error Bool}
    (h : token.contract.Responds operation arguments machine outcome later) :
    token.ledger.isInitialized later = true ↔ token.ledger.isInitialized machine = true ∨
      (∃ elements, arguments = .array elements ∨ arguments = .struct elements) ∧
        operation.toBytes = .ok (Utf8.encode "onPersist") ∧ token.MintsReward machine := by
  have hruns : ∀ {elements outcome after},
      arguments = .array elements ∨ arguments = .struct elements →
      token.contract.Runs operation elements machine outcome after →
      (token.ledger.isInitialized after = true ↔ token.ledger.isInitialized machine = true ∨
        (∃ elements, arguments = .array elements ∨ arguments = .struct elements) ∧
          operation.toBytes = .ok (Utf8.encode "onPersist") ∧ token.MintsReward machine) := by
    intro elements outcome after helements hrun
    rw [isInitialized_runs hrun]
    exact or_congr_right (iff_and_self.mpr fun _ => ⟨elements, helements⟩)
  cases h with
  | noElements harray hstruct =>
    refine iff_self_or.mpr fun h => ?_
    obtain ⟨⟨elements, h | h⟩, -⟩ := h
    · exact absurd h (harray elements)
    · exact absurd h (hstruct elements)
  | unnamed helements hname =>
    refine iff_self_or.mpr fun h => absurd ⟨?_, h.2.1⟩ (hname.not_named .onPersist)
    simp [contract, methods]
  | failed helements hrun => exact hruns helements hrun
  | unloaded helements hrun hframes => exact hruns helements hrun
  | refused helements hrun hframes hcharge => exact hruns helements hrun
  | answered helements hrun hframes hcharge =>
    have hanswered := hruns helements hrun
    exact hanswered

/-- A call from the current frame opens the token if it asks for the work that mints. -/
theorem opens_invoke_iff {frame : Frame} {rest : List Frame}
    (hcall : token.contract.CalledFrom machine frame rest) :
    token.Opens machine .invoke ↔ ∃ operation arguments elements items,
      frame.stack.items = operation :: arguments :: items ∧
        (arguments = .array elements ∨ arguments = .struct elements) ∧
        operation.toBytes = .ok (Utf8.encode "onPersist") ∧
        token.MintsReward (machine.without frame rest [operation, arguments] items) := by
  constructor
  · intro h
    cases h with
    | invoke hcalled hitems helements hbytes hmints =>
      obtain ⟨rfl, rfl⟩ := hcalled.unique hcall
      exact ⟨_, _, _, _, hitems, helements, hbytes, hmints⟩
  · rintro ⟨operation, arguments, elements, items, hitems, helements, hbytes, hmints⟩
    exact .invoke hcall hitems helements hbytes hmints

theorem isInitialized_invoke (token : Token) (machine : Machine) :
    token.ledger.isInitialized (token.contract.invoke.exec machine).2 = true ↔
      token.ledger.isInitialized machine = true ∨ token.Opens machine .invoke := by
  obtain ⟨outcome, later, h⟩ := token.contract.exists_answers machine
  rw [h.exec_invoke]
  cases h with
  | uncalled hother =>
    refine iff_self_or.mpr fun hopens => ?_
    cases hopens with
    | invoke hcall => exact absurd hcall (hother _ _)
  | noOperation hcall hitems => simp [opens_invoke_iff hcall, hitems]
  | noArguments hcall hitems =>
    -- The operation was taken, which leaves the store as it was.
    simp [opens_invoke_iff hcall, hitems, Machine.without, Ledger.isInitialized]
  | @taken frame rest operation arguments items outcome later hcall hitems h =>
    refine (isInitialized_responds h).trans (or_congr_right ?_)
    rw [opens_invoke_iff hcall, hitems]
    constructor
    · rintro ⟨⟨elements, helements⟩, hbytes, hmints⟩
      exact ⟨operation, arguments, elements, items, rfl, helements, hbytes, hmints⟩
    · rintro ⟨_, _, elements, _, hsame, helements, hbytes, hmints⟩
      cases hsame
      exact ⟨⟨elements, helements⟩, hbytes, hmints⟩

theorem isInitialized_after (token : Token) (machine : Machine) (operation : Operation) :
    token.ledger.isInitialized (operation.after token machine) = true ↔
      token.ledger.isInitialized machine = true ∨ token.Opens machine operation := by
  cases operation with
  | setUp =>
    by_cases htrigger : machine.trigger = .application
    · exact iff_of_true (isInitialized_setUp htrigger) (.inr (.setUp htrigger))
    · rw [Operation.after, Contract.exec_setUp, if_neg htrigger]
      refine iff_self_or.mpr fun h => ?_
      cases h with
      | setUp h => exact absurd h htrigger
  | mint address amount =>
    refine (token.ledger.latches_mint address amount machine).trans
      (or_congr_right ⟨.mint, fun hopens => ?_⟩)
    cases hopens with
    | mint h => exact h
  | burn address amount =>
    refine (token.ledger.latches_burn address amount machine).trans
      (or_congr_right ⟨.burn, fun hopens => ?_⟩)
    cases hopens with
    | burn h => exact h
  | onPersist =>
    refine (token.isInitialized_onPersist machine).trans
      (or_congr_right ⟨.onPersist, fun hopens => ?_⟩)
    cases hopens with
    | onPersist h => exact h
  | invoke => exact token.isInitialized_invoke machine

/-! ## What setup answers -/

theorem exec_setUp_of_isInitialized (h : token.ledger.isInitialized machine = true) :
    token.contract.setUp.exec machine =
      (.error (if machine.trigger = .application then .violation (.alreadyInitialized token.service)
        else .wrongTrigger "initialize" .application machine.trigger), machine) := by
  rw [Contract.exec_setUp]
  split
  · refine exec_bind_error _ ?_
    have hseed := exec_seed token machine
    rwa [if_pos h] at hseed
  · rfl

theorem exec_setUp_ne_alreadyInitialized (h : token.ledger.isInitialized machine = false)
    (name : String) :
    (token.contract.setUp.exec machine).1 ≠ .error (.violation (.alreadyInitialized name)) := by
  have hseed : (token.seed.exec machine).1 ≠ .error (.violation (.alreadyInitialized name)) := by
    rw [exec_seed, if_neg (by simp [h])]
    exact ((Ledger.avoids_put _ _).bind fun _ =>
      Avoids.forM fun grant => token.ledger.avoids_mint _ _) machine
  rw [Contract.exec_setUp, contract_seed]
  split
  · rw [exec_bind]
    rcases hexec : token.seed.exec machine with ⟨error | _, after⟩ <;> rw [hexec] at hseed
    · simpa using hseed
    · simp
  · simp

/-! ## Runs -/

/-- Operations of the token one after another, from one store to another. Each runs on any
machine that has the store it finds, and may fail. -/
inductive History (token : Token) : Store → List (Machine × Operation) → Store → Prop where
  | nil (store : Store) : History token store [] store
  | cons {machine : Machine} {operation : Operation} {steps : List (Machine × Operation)}
      {last : Store} (h : History token (operation.after token machine).store steps last) :
      History token machine.store ((machine, operation) :: steps) last

/-- The step is a setup that succeeds. -/
def SetsUp (token : Token) (step : Machine × Operation) : Prop :=
  step.2 = .setUp ∧ (token.contract.setUp.exec step.1).1 = .ok true

variable {first last : Store} {steps : List (Machine × Operation)}

theorem SetsUp.opens {step : Machine × Operation} (h : token.SetsUp step) :
    token.ledger.isInitialized step.1 = false ∧ token.Opens step.1 step.2 := by
  obtain ⟨machine, operation⟩ := step
  obtain ⟨rfl, hdone⟩ := h
  constructor
  · rw [Bool.eq_false_iff]
    intro hopened
    rw [exec_setUp_of_isInitialized hopened] at hdone
    cases hdone
  · by_cases htrigger : machine.trigger = .application
    · exact .setUp htrigger
    · rw [Contract.exec_setUp, if_neg htrigger] at hdone
      cases hdone

theorem History.contains_iff (h : token.History first steps last) :
    last.contains token.ledger.supplyKey = true ↔
      first.contains token.ledger.supplyKey = true ∨
        ∃ step ∈ steps, token.Opens step.1 step.2 := by
  induction h with
  | nil => simp
  | @cons machine operation steps last _ ih =>
    have hstep := token.isInitialized_after machine operation
    rw [Ledger.isInitialized, Ledger.isInitialized] at hstep
    rw [ih, hstep, List.exists_mem_cons_iff, or_assoc]

/-- Once the supply is on record, no setup succeeds. -/
theorem History.not_setsUp (h : token.History first steps last)
    (hopened : first.contains token.ledger.supplyKey = true) :
    ∀ step ∈ steps, ¬token.SetsUp step := by
  induction h with
  | nil => simp
  | @cons machine operation steps last _ ih =>
    have hafter := (token.isInitialized_after machine operation).mpr (.inl hopened)
    refine List.forall_mem_cons.mpr ⟨fun hsetsUp => ?_, ih hafter⟩
    exact Bool.eq_false_iff.mp hsetsUp.opens.1 hopened

theorem History.pairwise_not_setsUp (h : token.History first steps last) :
    steps.Pairwise fun a b => ¬(token.SetsUp a ∧ token.SetsUp b) := by
  induction h with
  | nil => exact .nil
  | @cons machine operation steps last h ih =>
    refine .cons (fun step hmem hboth => ?_) ih
    have hafter := (token.isInitialized_after machine operation).mpr (.inr hboth.1.opens.2)
    exact h.not_setsUp hafter step hmem hboth.2

/-- Along any run at most one setup succeeds. After an operation that opens the token every
setup is refused and changes nothing, and before one none is refused as a second one. -/
theorem setUp_at_most_once (token : Token)
    (hfirst : ∀ key record, first.get? key = some record → key.owner ≠ token.settings.id)
    (h : token.History first steps last) :
    (steps.Pairwise fun a b => ¬(token.SetsUp a ∧ token.SetsUp b)) ∧
    ∀ machine : Machine, machine.store = last →
      ((∃ step ∈ steps, token.Opens step.1 step.2) →
        token.contract.setUp.exec machine =
          (.error (if machine.trigger = .application
            then .violation (.alreadyInitialized token.service)
            else .wrongTrigger "initialize" .application machine.trigger), machine)) ∧
      ((∀ step ∈ steps, ¬token.Opens step.1 step.2) →
        ∀ name, (token.contract.setUp.exec machine).1 ≠
          .error (.violation (.alreadyInitialized name))) := by
  refine ⟨h.pairwise_not_setsUp, ?_⟩
  rintro machine rfl
  have hlast := h.contains_iff
  refine ⟨fun hopened => exec_setUp_of_isInitialized (hlast.mpr (.inr hopened)), fun hnone => ?_⟩
  refine exec_setUp_ne_alreadyInitialized (Bool.eq_false_iff.mpr fun hcontains => ?_)
  rcases hlast.mp hcontains with hcontains | ⟨step, hmem, hopens⟩
  · obtain ⟨record, hrecord⟩ := Option.isSome_iff_exists.mp hcontains
    exact hfirst _ _ hrecord rfl
  · exact hnone step hmem hopens

/-- A token that gives thirty to one account. -/
def generous : Token where
  service := "Generous"
  settings := {
    id := 5, name := "Generous", symbol := "G", decimals := 0
    distribution := [⟨List.replicate 20 7, 30⟩] }

/-- Too narrow for the account's record, though not for the supply's. -/
def narrowed (machine : Machine) : Machine := { machine with limits := { maxItemSize := 4 } }

/-- What is on record after a setup there. -/
def seeded (machine : Machine) : Store := (Operation.setUp.after generous (narrowed machine)).store

theorem history_seeded (machine : Machine) :
    generous.History machine.store [(narrowed machine, .setUp)] (seeded machine) :=
  have hafter : generous.History (Operation.setUp.after generous (narrowed machine)).store []
    (seeded machine) := .nil _
  .cons hafter

/-- The setup fails in its mint, and no later one is let through. -/
theorem setUp_at_most_once_narrowed :
    generous.History {} [(narrowed (.start .application), .setUp)] (seeded (.start .application)) ∧
      (generous.contract.setUp.exec (narrowed (.start .application))).1.isOk = false ∧
      generous.contract.setUp.exec (.start .application (seeded (.start .application))) =
        (.error (.violation (.alreadyInitialized "Generous")),
          .start .application (seeded (.start .application))) := by
  have hhistory : generous.History {} [(narrowed (.start .application), .setUp)]
      (seeded (.start .application)) := history_seeded (.start .application)
  have hnone : ∀ key record, Store.get? {} key = some record →
      key.owner ≠ generous.settings.id := by
    intro key record hget
    cases hget
  refine ⟨hhistory, by decide +kernel, ?_⟩
  obtain ⟨-, hlater⟩ := setUp_at_most_once generous hnone hhistory
  exact (hlater (.start .application (seeded (.start .application))) rfl).1
    ⟨_, List.mem_singleton_self _, .setUp rfl⟩

end Token

end NativeContracts
