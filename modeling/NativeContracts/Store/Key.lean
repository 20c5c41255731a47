import NativeContracts.Text.Hex

/-! Keys of stored records: the number of the contract that owns the record, and
bytes that the contract chooses. Keys are ordered by owner, then by bytes. -/

namespace NativeContracts

structure Key where
  owner : Int32
  bytes : List UInt8
  deriving DecidableEq

namespace Key

/-- A key of one leading byte, which tells the records of a contract apart by sort, and more. -/
def tagged (owner : Int32) (tag : UInt8) (rest : List UInt8) : Key := ⟨owner, tag :: rest⟩

def text (key : Key) : String := s!"{key.owner.toInt}:{Hex.encode key.bytes}"

instance : LT Key where
  lt a b := a.owner < b.owner ∨ a.owner = b.owner ∧ a.bytes < b.bytes

theorem lt_iff {a b : Key} :
    a < b ↔ a.owner < b.owner ∨ a.owner = b.owner ∧ a.bytes < b.bytes := Iff.rfl

instance (a b : Key) : Decidable (a < b) := decidable_of_iff _ lt_iff.symm

protected theorem lt_irrefl (a : Key) : ¬a < a := by
  simp [lt_iff, Int32.lt_irrefl, List.lt_irrefl]

protected theorem lt_trans {a b c : Key} (hab : a < b) (hbc : b < c) : a < c := by
  rw [lt_iff] at *
  rcases hab with hab | ⟨hab, hab'⟩ <;> rcases hbc with hbc | ⟨hbc, hbc'⟩
  · exact .inl (Int32.lt_trans hab hbc)
  · exact .inl (hbc ▸ hab)
  · exact .inl (hab ▸ hbc)
  · exact .inr ⟨hab.trans hbc, List.lt_trans hab' hbc'⟩

protected theorem lt_of_not_lt_of_ne {a b : Key} (h : ¬b < a) (hne : a ≠ b) : a < b := by
  rw [lt_iff, not_or, not_and] at h
  rw [lt_iff]
  by_cases ho : a.owner = b.owner
  · refine .inr ⟨ho, ?_⟩
    have hle := List.not_lt.mp (h.2 ho.symm)
    refine Decidable.byContradiction fun hlt => hne ?_
    have hbytes := List.le_antisymm hle (List.not_lt.mp hlt)
    cases a; cases b
    rw [mk.injEq]
    exact ⟨ho, hbytes⟩
  · left
    rw [Int32.lt_iff_toInt_lt] at *
    have := mt Int32.toInt_inj.mp ho
    omega

end Key

end NativeContracts
