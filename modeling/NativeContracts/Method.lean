import NativeContracts.Machine

/-! The methods of a contract. A table keeps them in the order in which they were
added, no two with one name, and begins with the method that every contract has.
Its listing is in the order of names. -/

namespace NativeContracts

/-- What a call of a method does: the contract's own work for a block, or a body of
its own, which is given the arguments. -/
inductive Handler where
  | onPersist
  | body (run : List Item → Run Item)

/-- A safe method leaves the store as it is. -/
structure Method where
  name : String
  price : Int64
  safe : Bool
  handler : Handler

namespace Method

def onPersistName : String := "onPersist"

def onPersist : Method := ⟨onPersistName, 0, false, .onPersist⟩

def reading (name : String) (price : Int64) (run : List Item → Run Item) : Method :=
  ⟨name, price, true, .body run⟩

def writing (name : String) (price : Int64) (run : List Item → Run Item) : Method :=
  ⟨name, price, false, .body run⟩

end Method

structure MethodTable where
  methods : List Method := [.onPersist]
  nodup : (methods.map Method.name).Nodup := by simp

namespace MethodTable

def get? (table : MethodTable) (name : String) : Option Method :=
  table.methods.find? (·.name = name)

def insert? (table : MethodTable) (method : Method) : Option MethodTable :=
  if h : method.name ∈ table.methods.map Method.name then none
  else some ⟨table.methods ++ [method], by
    rw [List.map_append, List.nodup_append]
    refine ⟨table.nodup, by simp, fun a ha b hb => ?_⟩
    rintro rfl
    exact h (List.mem_singleton.mp hb ▸ ha)⟩

def listing (table : MethodTable) : List Method :=
  table.methods.mergeSort fun a b => a.name ≤ b.name

end MethodTable

end NativeContracts
