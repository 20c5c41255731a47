import NativeContracts.Proofs.Bookkeeping
import NativeContracts.Proofs.Registration
import NativeContracts.Proofs.Tokens

/-! Tokens do not see each other. What a token does is decided by the records under its
own id, the trigger, the limits and the budget, and nothing but those records changes.
So operations of tokens with different ids can change places, and so can the tokens of
a registry. -/

namespace NativeContracts

open Run

variable {α β γ : Type} {owner i j : Int32} {a b machine start before after : Machine}

/-! ## Machines that agree on the records of one owner -/

namespace Machine

/-- The machines differ in records of other owners and in their stacks at most. -/
structure AgreeOn (owner : Int32) (a b : Machine) : Prop where
  trigger_eq : a.trigger = b.trigger
  limits_eq : a.limits = b.limits
  budget_eq : a.budget = b.budget
  records_eq : ∀ key, key.owner = owner → a.store.get? key = b.store.get? key

/-- Nothing but records of the owner changed from one machine to the other. -/
structure ChangesOnly (owner : Int32) (before after : Machine) : Prop where
  rest_eq : after = { before with store := after.store }
  others_eq : ∀ key, key.owner ≠ owner → after.store.get? key = before.store.get? key

theorem ChangesOnly.refl (owner : Int32) (machine : Machine) : ChangesOnly owner machine machine :=
  ⟨rfl, fun _ _ => rfl⟩

/-- One store after another: the rest of the machine is what it was at first. -/
theorem ChangesOnly.rest_trans (h : ChangesOnly i start before) (h' : ChangesOnly j before after) :
    after = { start with store := after.store } := by
  have hrest := h'.rest_eq
  rw [h.rest_eq] at hrest
  exact hrest

/-- Who looks at the records of another owner sees no change. -/
theorem ChangesOnly.agreeOn (h : ChangesOnly i before after) (hne : j ≠ i) :
    AgreeOn j after before := by
  have hrest := h.rest_eq
  refine ⟨?_, ?_, ?_, ?_⟩
  · rw [hrest]
  · rw [hrest]
  · rw [hrest]
  · intro key hkey
    exact h.others_eq key (hkey ▸ hne)

theorem AgreeOn.withRecord (h : AgreeOn owner a b) (key : Key) (record : Record) :
    AgreeOn owner (a.withRecord key record) (b.withRecord key record) := by
  refine ⟨h.trigger_eq, h.limits_eq, h.budget_eq, fun other hother => ?_⟩
  simp only [Machine.withRecord, Store.get?_set, h.records_eq other hother]

end Machine

open Machine

/-! ## Runs that keep to one owner -/

/-- On machines that agree the run has one outcome, and they agree after it. -/
def Run.Determined (owner : Int32) (x : Run α) : Prop :=
  ∀ a b, AgreeOn owner a b →
    (x.exec a).1 = (x.exec b).1 ∧ AgreeOn owner (x.exec a).2 (x.exec b).2

/-- The run depends on records of the owner only, and changes no others. -/
structure Run.Confined (owner : Int32) (x : Run α) : Prop where
  determined : Determined owner x
  changesOnly : ∀ start, Keeps (ChangesOnly owner start) x

namespace Run

theorem determined_pure (value : α) : Determined owner (pure value : Run α) :=
  fun _ _ h => ⟨rfl, h⟩

theorem determined_throw (error : Error) : Determined owner (throw error : Run α) :=
  fun _ _ h => ⟨rfl, h⟩

theorem Determined.bind {x : Run α} {f : α → Run β} (hx : Determined owner x)
    (hf : ∀ value, Determined owner (f value)) : Determined owner (x >>= f) := by
  intro a b h
  obtain ⟨hresult, hafter⟩ := hx a b h
  rw [exec_bind, exec_bind]
  rcases hexecA : x.exec a with ⟨resultA, afterA⟩
  rcases hexecB : x.exec b with ⟨resultB, afterB⟩
  rw [hexecA, hexecB] at hresult hafter
  obtain rfl : resultA = resultB := hresult
  rcases resultA with error | value
  · exact ⟨rfl, hafter⟩
  · exact hf value afterA afterB hafter

theorem Determined.forM {xs : List α} {f : α → Run PUnit} (hf : ∀ x ∈ xs, Determined owner (f x)) :
    Determined owner (xs.forM f) := by
  induction xs with
  | nil => exact determined_pure _
  | cons x xs ih =>
    exact (hf x (by simp)).bind fun _ => ih fun y hy => hf y (by simp [hy])

theorem determined_put {key : Key} (howner : key.owner = owner) (record : Record) :
    Determined owner (put key record) := by
  intro a b h
  have hold := h.records_eq key howner
  rw [exec_put, exec_put, Store.put, Store.put, hold]
  rcases b.store.get? key with _ | ⟨bytes, _ | _⟩
  · exact ⟨rfl, h.withRecord key record⟩
  · exact ⟨rfl, h.withRecord key record⟩
  · exact ⟨rfl, h⟩

theorem determined_putAccount {key : Key} (howner : key.owner = owner) (account : Account) :
    Determined owner (putAccount key account) := by
  intro a b h
  rw [exec_putAccount, exec_putAccount, h.budget_eq, h.limits_eq]
  rcases account.toRecord b.budget b.limits with error | record
  · exact ⟨rfl, h⟩
  · exact determined_put howner record a b h

theorem Confined.map {x : Run α} (h : Confined owner x) (f : α → β) :
    Confined owner (f <$> x) := by
  rw [map_eq_pure_bind]
  exact ⟨h.determined.bind fun _ => determined_pure _,
    fun start => (h.changesOnly start).bind fun _ => keeps_pure _⟩

/-- Runs that keep to different owners can change places. -/
theorem Confined.commute {x : Run α} {y : Run β} (hx : Confined i x) (hy : Confined j y)
    (hne : i ≠ j) (machine : Machine) :
    (y.exec (x.exec machine).2).1 = (y.exec machine).1 ∧
      (x.exec (y.exec machine).2).1 = (x.exec machine).1 ∧
      (y.exec (x.exec machine).2).2 = (x.exec (y.exec machine).2).2 := by
  have hxOnly := hx.changesOnly machine machine (.refl i machine)
  have hyOnly := hy.changesOnly machine machine (.refl j machine)
  have hyAfter := hy.changesOnly _ _ (.refl j (x.exec machine).2)
  have hxAfter := hx.changesOnly _ _ (.refl i (y.exec machine).2)
  obtain ⟨hyResult, hyAgree⟩ := hy.determined _ _ (hxOnly.agreeOn hne.symm)
  obtain ⟨hxResult, hxAgree⟩ := hx.determined _ _ (hyOnly.agreeOn hne)
  refine ⟨hyResult, hxResult, ?_⟩
  have hstore : (y.exec (x.exec machine).2).2.store = (x.exec (y.exec machine).2).2.store := by
    apply Store.ext_get?
    intro key
    by_cases hi : key.owner = i
    · rw [hyAfter.others_eq key (hi ▸ hne), hxAgree.records_eq key hi]
    · rw [hxAfter.others_eq key hi]
      by_cases hj : key.owner = j
      · exact hyAgree.records_eq key hj
      · rw [hyAfter.others_eq key hj, hxOnly.others_eq key hi, hyOnly.others_eq key hj]
  rw [hxOnly.rest_trans hyAfter, hyOnly.rest_trans hxAfter, hstore]

end Run

/-! ## Ledgers -/

namespace Ledger

variable {ledger : Ledger}

theorem balance_eq_of_agreeOn (h : AgreeOn ledger.owner a b) (address : List UInt8) :
    ledger.balance address a = ledger.balance address b := by
  have hrecord := h.records_eq (ledger.accountKey address) rfl
  unfold balance Machine.account?
  rw [hrecord, h.limits_eq]

theorem supply_eq_of_agreeOn (h : AgreeOn ledger.owner a b) :
    ledger.supply a = ledger.supply b := by
  have hrecord := h.records_eq ledger.supplyKey rfl
  unfold supply
  rw [hrecord]

theorem determined_credit (ledger : Ledger) (address : List UInt8) (amount : Int) :
    Determined ledger.owner (ledger.credit address amount) := by
  intro a b h
  rw [exec_credit, exec_credit, balance_eq_of_agreeOn h]
  split
  · exact ⟨rfl, h⟩
  · split
    · exact ⟨rfl, h⟩
    · split
      · exact ⟨rfl, h⟩
      · exact determined_putAccount rfl _ a b h

theorem determined_debit (ledger : Ledger) (address : List UInt8) (amount : Int) :
    Determined ledger.owner (ledger.debit address amount) := by
  intro a b h
  have hrecord := h.records_eq (ledger.accountKey address) rfl
  rw [exec_debit, exec_debit, balance_eq_of_agreeOn h, Store.contains, Store.contains, hrecord]
  split
  · exact ⟨rfl, h⟩
  · split
    · exact ⟨rfl, h⟩
    · split
      · exact ⟨rfl, h⟩
      · split
        · exact ⟨rfl, h⟩
        · exact determined_putAccount rfl _ a b h

theorem determined_setSupply (ledger : Ledger) (value : Int) :
    Determined ledger.owner (ledger.setSupply value) := by
  have howner : ledger.supplyKey.owner = ledger.owner := rfl
  exact determined_put howner _

theorem determined_mint (ledger : Ledger) (address : List UInt8) (amount : Int) :
    Determined ledger.owner (ledger.mint address amount) := by
  intro a b h
  rw [exec_mint, exec_mint, supply_eq_of_agreeOn h]
  split
  · exact ⟨rfl, h⟩
  · split
    · exact ⟨rfl, h⟩
    · exact ((ledger.determined_credit address amount).bind fun _ =>
        ledger.determined_setSupply _) a b h

theorem determined_burn (ledger : Ledger) (address : List UInt8) (amount : Int) :
    Determined ledger.owner (ledger.burn address amount) := by
  refine (ledger.determined_debit address amount).bind fun _ => ?_
  intro a b h
  rw [exec_get_bind, exec_get_bind, supply_eq_of_agreeOn h]
  dsimp only
  split
  · exact ⟨rfl, h⟩
  · exact ledger.determined_setSupply _ a b h

theorem allowsWrites_changesOnly (ledger : Ledger) (start : Machine) :
    ledger.AllowsWrites (ChangesOnly ledger.owner start) := by
  intro machine key record hkey h
  refine ⟨h.rest_trans (j := ledger.owner) ⟨rfl, fun other hother => ?_⟩, fun other hother => ?_⟩
  · exact Store.get?_set_of_ne fun heq => hother (heq ▸ hkey)
  · have hset : (machine.store.set key record).get? other = machine.store.get? other :=
      Store.get?_set_of_ne fun heq => hother (heq ▸ hkey)
    exact hset.trans (h.others_eq other hother)

end Ledger

/-! ## Tokens -/

namespace Token

variable {token : Token}

theorem determined_seed (token : Token) : Determined token.settings.id token.seed := by
  intro a b h
  have hopened : token.ledger.isInitialized a = token.ledger.isInitialized b := by
    rw [Ledger.isInitialized, Ledger.isInitialized, Store.contains, Store.contains,
      h.records_eq token.ledger.supplyKey rfl]
  rw [exec_seed, exec_seed, hopened]
  split
  · exact ⟨rfl, h⟩
  · refine ((token.ledger.determined_setSupply 0).bind fun _ => ?_) a b h
    exact Determined.forM fun grant _ => token.ledger.determined_mint grant.address grant.amount

theorem determined_persist (token : Token) : Determined token.settings.id token.persist := by
  rcases token.persist_cases with hnone | ⟨address, haddress, hreward⟩
  · rw [persist_eq_pure hnone]
    exact determined_pure _
  · rw [persist_eq_mint haddress hreward]
    exact token.ledger.determined_mint _ _

theorem confined_setUp (token : Token) : Confined token.settings.id token.contract.setUp where
  determined := by
    intro a b h
    rw [Contract.exec_setUp, Contract.exec_setUp, h.trigger_eq]
    split
    · exact (token.determined_seed.bind fun _ => determined_pure true) a b h
    · exact ⟨rfl, h⟩
  changesOnly := by
    intro start
    have hwrites := token.ledger.allowsWrites_changesOnly start
    refine Contract.keeps_setUp (keeps_seed (fun machine h _ => ?_) ?_)
    · exact Ledger.keeps_put_of_allowsWrites hwrites rfl _ machine h
    · exact Ledger.keeps_mint_of_allowsWrites hwrites

theorem confined_onPersist (token : Token) :
    Confined token.settings.id token.contract.onPersist where
  determined := by
    intro a b h
    rw [Contract.exec_onPersist, Contract.exec_onPersist, h.trigger_eq]
    split
    · exact (token.determined_persist.bind fun _ => determined_pure _) a b h
    · exact ⟨rfl, h⟩
  changesOnly := by
    intro start
    have hwrites := token.ledger.allowsWrites_changesOnly start
    exact Contract.keeps_onPersist (keeps_persist (Ledger.keeps_mint_of_allowsWrites hwrites))

/-- What can be done with a token directly. -/
inductive Action where
  | setUp
  | mint (address : List UInt8) (amount : Int)
  | burn (address : List UInt8) (amount : Int)
  | credit (address : List UInt8) (amount : Int)
  | debit (address : List UInt8) (amount : Int)
  | onPersist
  | balance (address : List UInt8)
  | supply

/-- What an action gives back. -/
inductive Reply where
  | done
  | flag (value : Bool)
  | item (value : Item)
  | number (value : Int)

def Action.run (token : Token) : Action → Run Reply
  | setUp => .flag <$> token.contract.setUp
  | mint address amount => (fun _ => .done) <$> token.ledger.mint address amount
  | burn address amount => (fun _ => .done) <$> token.ledger.burn address amount
  | credit address amount => (fun _ => .done) <$> token.ledger.credit address amount
  | debit address amount => (fun _ => .done) <$> token.ledger.debit address amount
  | onPersist => .item <$> token.contract.onPersist
  | balance address => do return .number (← token.ledger.balance address (← get))
  | supply => return .number (token.ledger.supply (← get))

theorem Action.confined (token : Token) (action : Action) :
    Confined token.settings.id (action.run token) := by
  have hwrites := token.ledger.allowsWrites_changesOnly
  cases action with
  | setUp => exact token.confined_setUp.map _
  | mint address amount =>
    exact Confined.map ⟨token.ledger.determined_mint address amount,
      fun start => Ledger.keeps_mint_of_allowsWrites (hwrites start) address amount⟩ _
  | burn address amount =>
    exact Confined.map ⟨token.ledger.determined_burn address amount,
      fun start => Ledger.keeps_burn_of_allowsWrites (hwrites start) address amount⟩ _
  | credit address amount =>
    exact Confined.map ⟨token.ledger.determined_credit address amount,
      fun start => Ledger.keeps_credit_of_allowsWrites (hwrites start) address amount⟩ _
  | debit address amount =>
    exact Confined.map ⟨token.ledger.determined_debit address amount,
      fun start => Ledger.keeps_debit_of_allowsWrites (hwrites start) address amount⟩ _
  | onPersist => exact token.confined_onPersist.map _
  | balance address =>
    refine ⟨fun a b h => ?_, fun start => ?_⟩
    · rw [Action.run, exec_get_bind, exec_get_bind, Ledger.balance_eq_of_agreeOn h]
      rcases token.ledger.balance address b with error | balance
      · exact ⟨rfl, h⟩
      · exact ⟨rfl, h⟩
    · exact keeps_get.bind fun machine => (keeps_lift _).bind fun _ => keeps_pure _
  | supply =>
    refine ⟨fun a b h => ?_, fun start => ?_⟩
    · rw [Action.run, exec_get_bind, exec_get_bind, Ledger.supply_eq_of_agreeOn h]
      exact ⟨rfl, h⟩
    · exact keeps_get.bind fun machine => keeps_pure _

end Token

/-! ## Loops -/

namespace Run

variable {τ : Type} {id : τ → Int32} {act : τ → Run γ} {combine : β → γ → β} {total result : β}
  {x : τ} {xs ys : List τ}

/-- Runs for one value after another, with all that they give combined. -/
def gather (combine : β → γ → β) (act : τ → Run γ) (total : β) (xs : List τ) : Run β :=
  xs.foldlM (fun total x => combine total <$> act x) total

theorem gather_cons_eq_ok_iff :
    (gather combine act total (x :: xs)).exec machine = (.ok result, after) ↔
      ∃ value middle, (act x).exec machine = (.ok value, middle) ∧
        (gather combine act (combine total value) xs).exec middle = (.ok result, after) := by
  rw [gather, List.foldlM_cons, bind_map_left, exec_bind_eq_ok_iff]
  rfl

/-- Two neighbours with different owners change places. -/
theorem gather_swap {y : τ} (hact : ∀ x, Confined (id x) (act x)) (hne : id x ≠ id y)
    (hcomm : ∀ total u v, combine (combine total u) v = combine (combine total v) u)
    (h : (gather combine act total (x :: y :: xs)).exec machine = (.ok result, after)) :
    (gather combine act total (y :: x :: xs)).exec machine = (.ok result, after) := by
  obtain ⟨u, first, hx, h⟩ := gather_cons_eq_ok_iff.mp h
  obtain ⟨v, second, hy, h⟩ := gather_cons_eq_ok_iff.mp h
  obtain ⟨hyResult, hxResult, hboth⟩ := (hact x).commute (hact y) hne machine
  rw [hx, hy] at hyResult hboth
  rw [hx] at hxResult
  rcases hswapped : (act y).exec machine with ⟨found, middle⟩
  rw [hswapped] at hyResult hxResult hboth
  obtain rfl : .ok v = found := hyResult
  refine gather_cons_eq_ok_iff.mpr ⟨v, middle, hswapped, ?_⟩
  rw [hcomm] at h
  exact gather_cons_eq_ok_iff.mpr ⟨u, second, Prod.ext hxResult hboth.symm, h⟩

/-- Runs that keep to different owners come to the same in any order. -/
theorem gather_perm (hact : ∀ x, Confined (id x) (act x))
    (hcomm : ∀ total u v, combine (combine total u) v = combine (combine total v) u)
    (hperm : xs.Perm ys) (hdistinct : (xs.map id).Nodup)
    (h : (gather combine act total xs).exec machine = (.ok result, after)) :
    (gather combine act total ys).exec machine = (.ok result, after) := by
  induction hperm generalizing total machine with
  | nil => exact h
  | cons x _ ih =>
    obtain ⟨value, middle, hx, h⟩ := gather_cons_eq_ok_iff.mp h
    exact gather_cons_eq_ok_iff.mpr ⟨value, middle, hx, ih (List.nodup_cons.mp hdistinct).2 h⟩
  | swap x y xs =>
    refine gather_swap hact (fun heq => ?_) hcomm h
    exact (List.nodup_cons.mp hdistinct).1 (by simp [heq])
  | trans hfirst _ ih ih' =>
    exact ih' ((hfirst.map id).nodup_iff.mp hdistinct) (ih hdistinct h)

/-- Runs that keep to different owners, each of which would go through alone, go through one
after another, and each leaves its owner's records as it would alone. -/
theorem exec_gather {value : γ} (hact : ∀ x, Confined (id x) (act x))
    (hsame : combine total value = total) (hdistinct : (xs.map id).Nodup)
    (halone : ∀ x ∈ xs, ((act x).exec machine).1 = .ok value) :
    ∃ store, (gather combine act total xs).exec machine = (.ok total, { machine with store }) ∧
      (∀ x ∈ xs, ∀ key, key.owner = id x →
        store.get? key = ((act x).exec machine).2.store.get? key) ∧
      ∀ key, key.owner ∉ xs.map id → store.get? key = machine.store.get? key := by
  induction xs generalizing machine with
  | nil => exact ⟨machine.store, rfl, by simp, fun key _ => rfl⟩
  | cons x xs ih =>
    obtain ⟨hfresh, hrest⟩ := List.nodup_cons.mp hdistinct
    have honly := (hact x).changesOnly machine machine (.refl _ machine)
    rcases hx : (act x).exec machine with ⟨result, middle⟩
    rw [hx] at honly
    obtain rfl : result = .ok value := by simpa [hx] using halone x List.mem_cons_self
    -- The others do after the first one what they would have done before it.
    have hothers : ∀ y ∈ xs, ((act y).exec middle).1 = ((act y).exec machine).1 ∧
        AgreeOn (id y) ((act y).exec middle).2 ((act y).exec machine).2 := by
      intro y hy
      refine (hact y).determined _ _ (honly.agreeOn fun heq => hfresh ?_)
      exact heq ▸ List.mem_map_of_mem hy
    obtain ⟨store, hexec, hown, hnone⟩ := ih hrest fun y hy => by
      rw [(hothers y hy).1]
      exact halone y (List.mem_cons_of_mem _ hy)
    have hmiddle : middle = { machine with store := middle.store } := honly.rest_eq
    have hstore : { middle with store } = { machine with store } := by rw [hmiddle]
    refine ⟨store, ?_, ?_, ?_⟩
    · rw [gather, List.foldlM_cons, bind_map_left, exec_bind_ok _ hx, hsame, ← hstore]
      exact hexec
    · intro y hy key hkey
      rcases List.mem_cons.mp hy with rfl | hy
      · rw [hnone key (hkey ▸ hfresh), hx]
      · rw [hown y hy key hkey, (hothers y hy).2.records_eq key hkey]
    · intro key hkey
      rw [List.map_cons, List.mem_cons, not_or] at hkey
      rw [hnone key hkey.2, honly.others_eq key hkey.1]

theorem gather_perm_iff (hact : ∀ x, Confined (id x) (act x))
    (hcomm : ∀ total u v, combine (combine total u) v = combine (combine total v) u)
    (hperm : xs.Perm ys) (hdistinct : (xs.map id).Nodup) :
    (gather combine act total xs).exec machine = (.ok result, after) ↔
      (gather combine act total ys).exec machine = (.ok result, after) :=
  ⟨gather_perm hact hcomm hperm hdistinct,
    gather_perm hact hcomm hperm.symm ((hperm.map id).nodup_iff.mp hdistinct)⟩

end Run

namespace Registry

variable {registry other : Registry} {tokens others : List Token}

/-- A contract's work for a block, and whether the trigger was the one for it. -/
def worked (contract : Contract) : Run Bool := do
  let item ← contract.onPersist
  match item.toBool with
  | .error fault => Run.fail fault
  | .ok ran => return ran

theorem setUpAll_eq (h : registry.contracts.toList = tokens.map Token.contract) :
    registry.setUpAll = gather (fun _ _ => ()) (fun token => token.contract.setUp) () tokens := by
  unfold setUpAll gather
  rw [h]
  clear h
  induction tokens with
  | nil => rfl
  | cons token tokens ih =>
    rw [List.foldlM_cons, bind_map_left]
    dsimp only
    rw [← ih]
    exact (bind_assoc _ _ _).trans (by simp only [pure_bind])

theorem onPersistAll_eq (h : registry.contracts.toList = tokens.map Token.contract) :
    registry.onPersistAll =
      gather (fun all ran => all && ran) (fun token => worked token.contract) true tokens := by
  unfold onPersistAll gather worked
  rw [h, List.foldlM_map]
  congr 1
  funext all token
  rw [map_bind]
  congr 1
  funext item
  rcases item.toBool with fault | ran
  · rfl
  · rfl

theorem confined_worked (token : Token) : Confined token.settings.id (worked token.contract) := by
  have honPersist := token.confined_onPersist
  refine ⟨honPersist.determined.bind fun item => ?_,
    fun start => (honPersist.changesOnly start).bind fun item => ?_⟩
  · split
    · exact determined_throw _
    · exact determined_pure _
  · split
    · exact keeps_fail _
    · exact keeps_pure _

end Registry

namespace Token

/-- What a token does is decided by its own records, and changes no others. So what two tokens
do comes to the same in either order, and what a registry does in any order of its tokens. -/
theorem isolated :
    (∀ (token : Token) (action : Action) (a b : Machine), AgreeOn token.settings.id a b →
      ((action.run token).exec a).1 = ((action.run token).exec b).1 ∧
      AgreeOn token.settings.id ((action.run token).exec a).2 ((action.run token).exec b).2 ∧
      ChangesOnly token.settings.id a ((action.run token).exec a).2 ∧
      ChangesOnly token.settings.id b ((action.run token).exec b).2) ∧
    (∀ (token other : Token) (action answer : Action) (machine : Machine),
      token.settings.id ≠ other.settings.id →
      ((answer.run other).exec ((action.run token).exec machine).2).1 =
        ((answer.run other).exec machine).1 ∧
      ((action.run token).exec ((answer.run other).exec machine).2).1 =
        ((action.run token).exec machine).1 ∧
      ((answer.run other).exec ((action.run token).exec machine).2).2 =
        ((action.run token).exec ((answer.run other).exec machine).2).2) ∧
    ∀ (tokens others : List Token) (registry : Registry), tokens.Perm others →
      Registry.ofContracts (tokens.map Token.contract) = .ok registry →
      ∃ reordered, Registry.ofContracts (others.map Token.contract) = .ok reordered ∧
        ∀ machine after,
          (registry.setUpAll.exec machine = (.ok (), after) ↔
            reordered.setUpAll.exec machine = (.ok (), after)) ∧
          ∀ ran, registry.onPersistAll.exec machine = (.ok ran, after) ↔
            reordered.onPersistAll.exec machine = (.ok ran, after) := by
  refine ⟨?_, ?_, ?_⟩
  · intro token action a b h
    have hconfined := action.confined token
    obtain ⟨hresult, hagree⟩ := hconfined.determined a b h
    exact ⟨hresult, hagree, hconfined.changesOnly a a (.refl _ a),
      hconfined.changesOnly b b (.refl _ b)⟩
  · intro token other action answer machine hne
    exact (action.confined token).commute (answer.confined other) hne machine
  · intro tokens others registry hperm hregistry
    obtain ⟨hcontracts, hdistinct⟩ := Registry.contracts_of_ofContracts hregistry
    obtain ⟨reordered, hreordered⟩ :=
      Registry.exists_ofContracts (hdistinct.perm (hperm.map Token.contract))
    have hothers := (Registry.contracts_of_ofContracts hreordered).1
    have hids := hdistinct.ids
    rw [List.map_map] at hids
    refine ⟨reordered, hreordered, fun machine after => ⟨?_, fun ran => ?_⟩⟩
    · rw [Registry.setUpAll_eq hcontracts, Registry.setUpAll_eq hothers]
      exact gather_perm_iff confined_setUp (fun _ _ _ => rfl) hperm hids
    · rw [Registry.onPersistAll_eq hcontracts, Registry.onPersistAll_eq hothers]
      exact gather_perm_iff Registry.confined_worked Bool.and_right_comm hperm hids

def sharer : List UInt8 := List.replicate 20 7

/-- Two tokens that each give something to one account. -/
def gold : Token where
  service := "Gold"
  settings := {
    id := 5, name := "Gold", symbol := "G", decimals := 0, distribution := [⟨sharer, 30⟩] }

def silver : Token where
  service := "Silver"
  settings := {
    id := 6, name := "Silver", symbol := "S", decimals := 0, distribution := [⟨sharer, 40⟩] }

/-- The machine after the setup of one of them. -/
def withSilver (machine : Machine) : Machine := ((Action.setUp.run silver).exec machine).2

theorem isolated_goldAndSilver :
    AgreeOn gold.settings.id (withSilver (.start .application)) (.start .application) ∧
      ((Action.setUp.run gold).exec (withSilver (.start .application))).1 =
        ((Action.setUp.run gold).exec (.start .application)).1 ∧
      ∃ registry reordered after,
        Registry.ofContracts [gold.contract, silver.contract] = .ok registry ∧
        Registry.ofContracts [silver.contract, gold.contract] = .ok reordered ∧
        registry.setUpAll.exec (.start .application) = (.ok (), after) ∧
        reordered.setUpAll.exec (.start .application) = (.ok (), after) := by
  obtain ⟨halone, -, htogether⟩ := isolated
  have hagree : AgreeOn gold.settings.id (withSilver (.start .application)) (.start .application) :=
    ((Action.setUp.confined silver).changesOnly _ _ (.refl _ _)).agreeOn (by decide)
  refine ⟨hagree, (halone gold .setUp _ _ hagree).1, ?_⟩
  have hdistinct : Registry.Distinct [gold.contract, silver.contract] := by
    constructor <;> decide +kernel
  obtain ⟨registry, hregistry⟩ := Registry.exists_ofContracts hdistinct
  obtain ⟨reordered, hreordered, hsame⟩ := htogether [gold, silver] [silver, gold] registry
    (.swap silver gold []) hregistry
  have hcontracts : registry.contracts.toList = [gold, silver].map Token.contract :=
    (Registry.contracts_of_ofContracts hregistry).1
  have hexec : ∃ after, registry.setUpAll.exec (.start .application) = (.ok (), after) := by
    rw [Registry.setUpAll_eq hcontracts]
    exact ⟨_, exec_eq_ok_of_toOption (by decide +kernel)⟩
  obtain ⟨after, hexec⟩ := hexec
  exact ⟨registry, reordered, after, hregistry, hreordered, hexec, (hsame _ _).1.mp hexec⟩

end Token

end NativeContracts
