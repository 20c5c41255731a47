import NativeContracts.Proofs.Dispatch

/-! The methods that a contract comes to expose. Whatever methods are offered to it, in whatever
order and under whatever names, a name stays with the method that took it first, and the name of
the work for a block is taken from the start. A method whose name is taken is refused, and
nothing changes. The listing has each method once, by ascending names, and no other arrangement
of the methods ascends, so that neither the order of the calls nor an order in which a table
might be walked shows in it. -/

namespace NativeContracts

/-! ## Texts in order -/

namespace Utf8

/-- The six bits of each byte after the first, taken off one after another. -/
theorem div_sixBits (n : Nat) : n / 4096 = n / 64 / 64 ∧ n / 262144 = n / 64 / 64 / 64 := by
  constructor <;> simp only [Nat.div_div_eq_div_mul]

/-- The bytes of two characters part, as the characters are ordered, before either ends. -/
theorem utf8EncodeChar_append_lt {c d : Char} (h : c < d) (front back : List UInt8) :
    String.utf8EncodeChar c ++ front < String.utf8EncodeChar d ++ back := by
  have hlt : c.val.toNat < d.val.toNat := UInt32.lt_iff_toNat_lt.mp h
  have hmax : d.val.toNat < 0x110000 := by
    have hvalid := d.valid
    simp only [UInt32.isValidChar, Nat.isValidChar] at hvalid
    omega
  simp only [String.utf8EncodeChar, div_sixBits]
  generalize c.val.toNat = m at hlt
  generalize d.val.toNat = n at hlt hmax
  -- The first byte tells how many there are: more for the greater character.
  repeat' split
  all_goals
    simp only [List.cons_append, List.nil_append, List.cons_lt_cons_iff, UInt8.lt_iff_toNat_lt,
      ← UInt8.toNat_inj, UInt8.toNat_ofNat']
    omega

theorem flatMap_utf8EncodeChar_lt {chars others : List Char} (h : List.Lex (· < ·) chars others) :
    chars.flatMap String.utf8EncodeChar < others.flatMap String.utf8EncodeChar := by
  induction h with
  | @nil c others =>
    rw [List.flatMap_nil, List.flatMap_cons]
    rcases hbytes : String.utf8EncodeChar c with _ | ⟨byte, bytes⟩
    · exact absurd hbytes (by simp)
    · exact List.nil_lt_cons _ _
  | rel h =>
    rw [List.flatMap_cons, List.flatMap_cons]
    exact utf8EncodeChar_append_lt h _ _
  | cons _ ih =>
    rw [List.flatMap_cons, List.flatMap_cons]
    exact List.append_left_lt ih

/-- Texts are ordered as their bytes are. -/
theorem encode_lt_encode {first second : String} (h : first < second) :
    encode first < encode second := by
  rw [← String.ofList_toList (s := first), ← String.ofList_toList (s := second), encode_ofList,
    encode_ofList]
  exact flatMap_utf8EncodeChar_lt h

end Utf8

/-! ## Tables -/

/-- The methods that are made with a body of their own, safe or not. -/
inductive Method.HasBody : Method → Prop where
  | reading (name : String) (price : Int64) (run : List Item → Run Item) :
      HasBody (.reading name price run)
  | writing (name : String) (price : Int64) (run : List Item → Run Item) :
      HasBody (.writing name price run)

theorem Method.HasBody.handler_ne_onPersist {method : Method} (h : method.HasBody) :
    method.handler ≠ .onPersist := by
  cases h <;> exact nofun

/-- Under any other name a search goes past the work for a block. -/
theorem Method.find?_onPersist_cons {name : String} (h : name ≠ onPersistName)
    (methods : List Method) :
    (onPersist :: methods).find? (·.name = name) = methods.find? (·.name = name) :=
  List.find?_cons_of_neg fun hname => h (of_decide_eq_true hname).symm

/-- With no name twice, the work for a block is the one method under its name. -/
theorem Method.handler_eq_onPersist_iff {methods : List Method}
    (hbodies : ∀ method ∈ methods, method.HasBody)
    (hnodup : ((onPersist :: methods).map name).Nodup) {method : Method}
    (hmem : method ∈ onPersist :: methods) :
    method.handler = .onPersist ↔ method.name = onPersistName := by
  rcases List.mem_cons.mp hmem with rfl | hmem
  · exact iff_of_true rfl rfl
  · refine iff_of_false (hbodies method hmem).handler_ne_onPersist fun hname => ?_
    have hagain : onPersistName ∈ methods.map name := hname ▸ List.mem_map_of_mem hmem
    exact (List.nodup_cons.mp hnodup).1 hagain

namespace MethodTable

variable {table other : MethodTable} {method : Method} {methods : List Method}

/-- A method is added at the end, unless its name is taken. -/
theorem insert?_cases (table : MethodTable) (method : Method) :
    table.get? method.name = none ∧
        (∃ after, table.insert? method = some after ∧ after.methods = table.methods ++ [method]) ∨
      (∃ owner, table.get? method.name = some owner) ∧ table.insert? method = none := by
  unfold insert?
  split
  · next htaken =>
    obtain ⟨owner, howner, hname⟩ := List.mem_map.mp htaken
    exact .inr ⟨⟨owner, get?_eq_some_iff.mpr ⟨howner, hname⟩⟩, rfl⟩
  · next hfree =>
    refine .inl ⟨get?_eq_none_iff.mpr fun owner howner hname => hfree ?_, _, rfl, rfl⟩
    exact List.mem_map.mpr ⟨owner, howner, hname⟩

/-- The methods in ascending order of their names, each once. -/
structure Lists (listing methods : List Method) : Prop where
  perm : listing.Perm methods
  sorted : listing.Pairwise fun first second => first.name < second.name

theorem lists_mergeSort (h : (methods.map Method.name).Nodup) :
    Lists (methods.mergeSort fun a b => a.name ≤ b.name) methods := by
  have hperm := List.mergeSort_perm methods fun a b => a.name ≤ b.name
  refine ⟨hperm, ?_⟩
  have hsorted := @List.pairwise_mergeSort _ (fun first second : Method => first.name ≤ second.name)
    (fun _ _ _ hle hle' =>
      decide_eq_true (String.le_trans (of_decide_eq_true hle) (of_decide_eq_true hle')))
    (fun a b => by simpa using String.le_total a.name b.name) methods
  have hnames := List.pairwise_map.mp ((hperm.map Method.name).nodup_iff.mpr h)
  refine hsorted.imp₂ (fun first second hle hne => ?_) hnames
  apply String.not_le.mp
  intro hge
  exact hne (String.le_antisymm (of_decide_eq_true hle) hge)

/-- Only one arrangement ascends. -/
theorem Lists.unique {first second : List Method} (h : Lists first methods)
    (h' : Lists second methods) : first = second := by
  refine List.Perm.eq_of_pairwise (fun a b _ _ hab hba => ?_) h.sorted h'.sorted
    (h.perm.trans h'.perm.symm)
  exact absurd (String.lt_trans hab hba) (String.lt_irrefl _)

theorem lists_iff {listing : List Method} :
    Lists listing table.methods ↔ listing = table.listing := by
  have hlisting := lists_mergeSort table.nodup
  exact ⟨fun h => h.unique hlisting, fun h => h ▸ hlisting⟩

theorem lists_listing (table : MethodTable) : Lists table.listing table.methods :=
  lists_iff.mpr rfl

/-- Whichever way the table is walked, sorting what comes up makes its listing. -/
theorem mergeSort_eq_listing (h : methods.Perm table.methods) :
    (methods.mergeSort fun a b => a.name ≤ b.name) = table.listing := by
  have hlists := lists_mergeSort ((h.map Method.name).nodup_iff.mpr table.nodup)
  exact lists_iff.mp ⟨hlists.perm.trans h, hlists.sorted⟩

theorem listing_eq_of_perm (h : table.methods.Perm other.methods) :
    table.listing = other.listing :=
  mergeSort_eq_listing h

end MethodTable

namespace Contract

variable {contract : Contract} {method : Method} {calls : List Method}

/-! ## One call -/

/-- What offering a method answers, beside the contract that it leaves. -/
def attempt (contract : Contract) (method : Method) : Except Error Unit × Contract :=
  match contract.withMethod method with
  | .ok after => (.ok (), after)
  | .error error => (.error error, contract)

theorem attempt_cases (contract : Contract) (method : Method) :
    contract.methods.get? method.name = none ∧
        (∃ methods, contract.attempt method = (.ok (), { contract with methods }) ∧
          methods.methods = contract.methods.methods ++ [method]) ∨
      (∃ owner, contract.methods.get? method.name = some owner) ∧
        contract.attempt method =
          (.error (.duplicateMethod contract.name method.name), contract) := by
  unfold attempt withMethod
  rcases contract.methods.insert?_cases method with
    ⟨hfree, methods, hinsert, hmethods⟩ | ⟨howner, hinsert⟩ <;> rw [hinsert]
  · exact .inl ⟨hfree, methods, rfl, hmethods⟩
  · exact .inr ⟨howner, rfl⟩

/-- A method is accepted, to the end of the table, if and only if its name is free. What is
refused is a duplicate and changes nothing. -/
theorem attempt_by_name (contract : Contract) (method : Method) :
    ((contract.attempt method).1 = .ok () ↔ contract.methods.get? method.name = none) ∧
      ((contract.attempt method).1 = .ok () →
        (contract.attempt method).2.methods.methods = contract.methods.methods ++ [method]) ∧
      ((contract.attempt method).1 ≠ .ok () →
        contract.attempt method =
          (.error (.duplicateMethod contract.name method.name), contract)) := by
  rcases contract.attempt_cases method with
    ⟨hfree, methods, hattempt, hmethods⟩ | ⟨⟨owner, howner⟩, hattempt⟩ <;> rw [hattempt]
  · exact ⟨iff_of_true rfl hfree, fun _ => hmethods, fun h => absurd rfl h⟩
  · rw [howner]
    exact ⟨⟨nofun, nofun⟩, nofun, fun _ => rfl⟩

/-- A name leads to its owner, and else to the method if that is its name. -/
theorem get?_attempt (contract : Contract) (method : Method) (name : String) :
    (contract.attempt method).2.methods.get? name =
      (contract.methods.get? name).or ([method].find? (·.name = name)) := by
  rcases contract.attempt_cases method with
    ⟨-, methods, hattempt, hmethods⟩ | ⟨⟨owner, howner⟩, hattempt⟩ <;> rw [hattempt]
  · rw [MethodTable.get?, hmethods, List.find?_append]
    rfl
  · by_cases hname : method.name = name
    · rw [← hname, howner, Option.some_or]
    · rw [List.find?_singleton, if_neg (by simpa using hname), Option.or_none]

/-! ## Calls one after another -/

/-- The contract after each of the methods was offered to it. -/
def offered (contract : Contract) (calls : List Method) : Contract :=
  calls.foldl (fun contract method => (contract.attempt method).2) contract

/-- The methods that are not refused, in the order of the calls. -/
def accepted (contract : Contract) : List Method → List Method
  | [] => []
  | method :: calls =>
    match contract.attempt method with
    | (.ok (), after) => method :: after.accepted calls
    | (.error _, after) => after.accepted calls

theorem offered_cons (contract : Contract) (method : Method) (calls : List Method) :
    contract.offered (method :: calls) = (contract.attempt method).2.offered calls := rfl

/-- Only the table changes, and what is accepted comes to its end. -/
theorem offered_eq (contract : Contract) (calls : List Method) :
    ∃ methods, contract.offered calls = { contract with methods } ∧
      methods.methods = contract.methods.methods ++ contract.accepted calls := by
  induction calls generalizing contract with
  | nil => exact ⟨contract.methods, rfl, (List.append_nil _).symm⟩
  | cons method calls ih =>
    rw [offered_cons, accepted]
    rcases contract.attempt_cases method with
      ⟨-, methods, hattempt, hmethods⟩ | ⟨-, hattempt⟩ <;> rw [hattempt]
    · obtain ⟨after, hoffered, hafter⟩ := ih { contract with methods }
      refine ⟨after, hoffered, ?_⟩
      rw [hafter, hmethods, List.append_assoc]
      rfl
    · exact ih contract

theorem get?_offered (contract : Contract) (calls : List Method) (name : String) :
    (contract.offered calls).methods.get? name =
      (contract.methods.get? name).or (calls.find? (·.name = name)) := by
  induction calls generalizing contract with
  | nil => simp [offered]
  | cons method calls ih =>
    rw [offered_cons, ih, get?_attempt, Option.or_assoc, ← List.find?_append]
    rfl

theorem accepted_sublist (contract : Contract) (calls : List Method) :
    (contract.accepted calls).Sublist calls := by
  induction calls generalizing contract with
  | nil => exact List.Sublist.refl _
  | cons method calls ih =>
    rw [accepted]
    split
    · exact (ih _).cons_cons _
    · exact (ih _).cons _

/-- Methods whose names are free and not repeated are all accepted. -/
theorem accepted_of_nodup (contract : Contract)
    (h : ((contract.methods.methods ++ calls).map Method.name).Nodup) :
    contract.accepted calls = calls := by
  induction calls generalizing contract with
  | nil => rfl
  | cons method calls ih =>
    rw [accepted]
    rcases contract.attempt_cases method with
      ⟨-, methods, hattempt, hmethods⟩ | ⟨⟨owner, howner⟩, -⟩
    · have hrest : ((methods.methods ++ calls).map Method.name).Nodup := by
        rwa [hmethods, List.append_assoc]
      rw [hattempt]
      exact congrArg (method :: ·) (ih { contract with methods } hrest)
    · obtain ⟨hmem, hname⟩ := MethodTable.get?_eq_some_iff.mp howner
      rw [List.map_append, List.nodup_append] at h
      exact absurd hname (h.2.2 _ (List.mem_map_of_mem hmem) _ List.mem_cons_self)

/-! ## From the start -/

/-- Methods offered to a new contract, one after another. The table begins with the work for a
block and has the accepted methods behind it. A method is accepted if and only if its name is
free, and otherwise refused as a duplicate that changes nothing. Each name leads to the method
that took it first, and the name of the work for a block to that and to no method with a body.
The listing is the one arrangement of the table that ascends by names, which is the order of
their bytes: it comes out of any walk through the table and of any order of the calls. -/
theorem methods_after_calls {name : String} {id : Int32} {contract : Contract}
    (hcalls : ∀ method ∈ calls, method.HasBody)
    (hoffered : (named name id).offered calls = contract) :
    contract.methods.methods = .onPersist :: (named name id).accepted calls ∧
      (∀ method,
        ((contract.attempt method).1 = .ok () ↔ contract.methods.get? method.name = none) ∧
        ((contract.attempt method).1 = .ok () →
          (contract.attempt method).2.methods.methods = contract.methods.methods ++ [method]) ∧
        ((contract.attempt method).1 ≠ .ok () →
          contract.attempt method = (.error (.duplicateMethod name method.name), contract))) ∧
      (∀ label method, contract.methods.get? label = some method → method.name = label) ∧
      (∀ label, label ≠ Method.onPersistName →
        contract.methods.get? label = ((named name id).accepted calls).find? (·.name = label) ∧
        contract.methods.get? label = calls.find? (·.name = label)) ∧
      contract.methods.get? Method.onPersistName = some .onPersist ∧
      (∀ method ∈ contract.methods.methods,
        method.handler = .onPersist ↔ method.name = Method.onPersistName) ∧
      (∀ listing, MethodTable.Lists listing contract.methods.methods ↔
        listing = contract.methods.listing) ∧
      (contract.methods.listing.Pairwise fun first second =>
        Utf8.encode first.name < Utf8.encode second.name) ∧
      (∀ walk : List Method, walk.Perm contract.methods.methods →
        (walk.mergeSort fun a b => a.name ≤ b.name) = contract.methods.listing) ∧
      (∀ others, others.Perm ((named name id).accepted calls) →
        (named name id).accepted others = others) ∧
      ∀ label number others,
        ((named label number).accepted others).Perm ((named name id).accepted calls) →
          ((named label number).offered others).methods.listing = contract.methods.listing := by
  obtain ⟨methods, heq, hmethods⟩ := (named name id).offered_eq calls
  have hget := (named name id).get?_offered calls
  rw [hoffered] at heq hget
  have htable : contract.methods.methods = .onPersist :: (named name id).accepted calls := by
    rw [heq]
    exact hmethods
  have hreserved : contract.methods.get? Method.onPersistName = some .onPersist := by
    rw [hget]
    rfl
  have hname : contract.name = name := by rw [heq]; rfl
  have hnodup := contract.methods.nodup
  rw [htable] at hnodup
  refine ⟨htable, fun method => hname ▸ contract.attempt_by_name method,
    fun label method h => (MethodTable.get?_eq_some_iff.mp h).2,
    fun label hlabel => ⟨?table, ?first⟩, hreserved, fun method hmem => ?reserved,
    fun listing => MethodTable.lists_iff,
    contract.methods.lists_listing.sorted.imp Utf8.encode_lt_encode,
    fun walk => MethodTable.mergeSort_eq_listing, fun others hperm => ?orders,
    fun label number others hperm => ?listing⟩
  case table => rw [MethodTable.get?, htable, Method.find?_onPersist_cons hlabel]
  case first =>
    have hnew : (named name id).methods.get? label = none := Method.find?_onPersist_cons hlabel []
    rw [hget, hnew, Option.none_or]
  case reserved =>
    rw [htable] at hmem
    have haccepted := ((named name id).accepted_sublist calls).subset
    exact Method.handler_eq_onPersist_iff (fun method h => hcalls method (haccepted h)) hnodup hmem
  case orders =>
    apply accepted_of_nodup
    exact ((hperm.cons _).map Method.name).nodup_iff.mpr hnodup
  case listing =>
    obtain ⟨found, hfound, hothers⟩ := (named label number).offered_eq others
    rw [hfound]
    apply MethodTable.listing_eq_of_perm
    rw [hothers, htable]
    exact hperm.cons _

/-- A method that answers every call with the same item. -/
def answering (item : Item) (_arguments : List Item) : Run Item := pure item

def spend : Method := .writing "spend" 5 (answering .null)

def history : Method := .reading "history" 1 (answering (.array []))

/-- Four calls, of which the second and the last are for names that are taken. -/
def fourCalls : List Method :=
  [spend, .reading Method.onPersistName 0 (answering .null), history,
    .reading "spend" 0 (answering .null)]

/-- Refused calls leave no trace, and the other two make one listing in either order. -/
theorem methods_after_calls_fourCalls :
    (∀ method ∈ fourCalls, method.HasBody) ∧
      ((named "Gold" 1).offered fourCalls).methods.get? Method.onPersistName = some .onPersist ∧
      ((named "Gold" 1).offered fourCalls).methods.get? "spend" = some spend ∧
      ((named "Gold" 1).offered fourCalls).methods.listing = [history, .onPersist, spend] ∧
      ((named "Silver" 2).offered [history, spend]).methods.listing =
        [history, .onPersist, spend] := by
  have hcalls : ∀ method ∈ fourCalls, method.HasBody := by
    simp only [fourCalls, spend, history, List.forall_mem_cons]
    exact ⟨.writing .., .reading .., .reading .., .reading .., List.forall_mem_nil _⟩
  obtain ⟨htable, -, -, hfirst, hreserved, -, hlists, -, -, -, hlisting⟩ :=
    methods_after_calls hcalls (rfl : (named "Gold" 1).offered fourCalls = _)
  have haccepted : (named "Gold" 1).accepted fourCalls = [spend, history] := rfl
  have hgold :
      ((named "Gold" 1).offered fourCalls).methods.listing = [history, .onPersist, spend] := by
    refine ((hlists _).mp ⟨?_, by decide⟩).symm
    rw [htable, haccepted]
    exact (List.perm_append_singleton history [.onPersist, spend]).symm
  refine ⟨hcalls, hreserved, ?_, hgold, ?_⟩
  · rw [(hfirst "spend" (by decide)).2]
    rfl
  · rw [← hgold]
    apply hlisting "Silver" 2
    rw [haccepted]
    exact .swap ..

end Contract

end NativeContracts
