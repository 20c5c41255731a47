import NativeContracts.Error
import NativeContracts.Store.Record

/-! Stored records by key, in the order of the keys. A put or a removal that meets
a constant record fails; any other changes the record at its key and no other. Two
stores with the same record at every key are equal. -/

namespace NativeContracts

structure Store where
  entries : List (Key × Record) := []
  sorted : entries.Pairwise (fun a b => a.1 < b.1) := by exact .nil
  deriving DecidableEq

namespace Store

def find? (key : Key) (entries : List (Key × Record)) : Option Record :=
  (entries.find? (·.1 = key)).map (·.2)

def insert (key : Key) (record : Record) : List (Key × Record) → List (Key × Record)
  | [] => [(key, record)]
  | entry :: rest =>
    if key < entry.1 then (key, record) :: entry :: rest
    else if key = entry.1 then (key, record) :: rest
    else entry :: insert key record rest

theorem mem_insert {key : Key} {record : Record} {entries : List (Key × Record)}
    {entry : Key × Record} (h : entry ∈ insert key record entries) :
    entry = (key, record) ∨ entry ∈ entries := by
  induction entries with
  | nil => simpa [insert] using h
  | cons first rest ih => grind [insert]

theorem insert_sorted {entries : List (Key × Record)} (key : Key) (record : Record)
    (h : entries.Pairwise (fun a b => a.1 < b.1)) :
    (insert key record entries).Pairwise (fun a b => a.1 < b.1) := by
  induction entries with
  | nil => simp [insert]
  | cons first rest ih =>
    rw [List.pairwise_cons] at h
    rw [insert]
    split
    · next hlt =>
      refine List.pairwise_cons.mpr ⟨fun entry he => ?_, List.pairwise_cons.mpr h⟩
      rcases List.mem_cons.mp he with rfl | he
      · exact hlt
      · exact Key.lt_trans hlt (h.1 entry he)
    · next hlt =>
      split
      · next heq => exact List.pairwise_cons.mpr ⟨heq ▸ h.1, h.2⟩
      · next hne =>
        refine List.pairwise_cons.mpr ⟨fun entry he => ?_, ih h.2⟩
        rcases mem_insert he with rfl | he
        · exact Key.lt_of_not_lt_of_ne hlt (Ne.symm hne)
        · exact h.1 entry he

def get? (store : Store) (key : Key) : Option Record := find? key store.entries

def contains (store : Store) (key : Key) : Bool := (store.get? key).isSome

def size (store : Store) : Nat := store.entries.length

def set (store : Store) (key : Key) (record : Record) : Store :=
  ⟨insert key record store.entries, insert_sorted key record store.sorted⟩

def erase (store : Store) (key : Key) : Store :=
  ⟨store.entries.filter (·.1 ≠ key), store.sorted.filter _⟩

def put (store : Store) (key : Key) (record : Record) : Except Error Store :=
  match store.get? key with
  | some ⟨_, true⟩ => .error (.store (.constantChanged key))
  | _ => .ok (store.set key record)

def remove (store : Store) (key : Key) : Except Error Store :=
  match store.get? key with
  | some ⟨_, true⟩ => .error (.store (.constantRemoved key))
  | _ => .ok (store.erase key)

end Store

end NativeContracts
