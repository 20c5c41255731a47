import NativeContracts.Script

/-! Which call a script declares when it is put together from instructions. The script keeps only
bytes, and the byte of a system call can stand for an instruction, lie in an operand, or come
too late for an operand to fit; the first emission alone says which of these it is. -/

namespace NativeContracts

theorem Instruction.code_injective : Function.Injective code := by
  intro first second
  cases first <;> cases second <;> decide

/-- Four bytes spell a service as a number in base 256, the lowest digit first. -/
theorem Service.toNat_number_ofOperand (a b c d : UInt8) :
    (ofOperand [a, b, c, d]).number.toNat =
      a.toNat + 256 * b.toNat + 65536 * c.toNat + 16777216 * d.toNat := by
  have hword : LittleEndian.decode [a, b, c, d] < UInt32.size := LittleEndian.decode_lt _
  rw [ofOperand, Nat.toUInt32_eq, UInt32.toNat_ofNat', Nat.mod_eq_of_lt hword]
  simp only [LittleEndian.decode_cons, LittleEndian.decode_nil]
  omega

namespace Script

/-! ## Emission after emission -/

def emit (script : Script) (emission : Emission) : Script := ⟨script.bytes ++ emission.bytes⟩

def Emission.isCall : Emission → Bool
  | bare _ => false
  | call _ => true

theorem Emission.length_bytes (emission : Emission) :
    emission.bytes.length = if emission.isCall then 5 else 1 := by
  cases emission <;> rfl

theorem foldl_emit (script : Script) (emissions : List Emission) :
    emissions.foldl emit script = ⟨script.bytes ++ (assemble emissions).bytes⟩ := by
  induction emissions generalizing script with
  | nil => simp [assemble]
  | cons emission rest ih =>
    rw [List.foldl_cons, ih]
    simp [emit, assemble]

theorem length_foldl_emit (script : Script) (emissions : List Emission) :
    (emissions.foldl emit script).bytes.length =
      script.bytes.length + emissions.countP (!·.isCall) + 5 * emissions.countP (·.isCall) := by
  induction emissions generalizing script with
  | nil => simp
  | cons emission rest ih =>
    rw [List.foldl_cons, ih]
    simp only [emit, List.length_append, emission.length_bytes, List.countP_cons]
    cases emission.isCall <;> simp <;> omega

/-! ## The first instruction -/

theorem declaredCall?_eq_none {script : Script}
    (h : ∀ service : Service, ¬Instruction.syscall.code :: service.operand <+: script.bytes) :
    script.declaredCall? = none :=
  Option.eq_none_iff_forall_ne_some.mpr fun service hdeclared =>
    h service (declaredCall?_eq_some_iff.mp hdeclared)

theorem declaredCall?_of_ne {code : UInt8} (h : code ≠ Instruction.syscall.code)
    (rest : List UInt8) : (⟨code :: rest⟩ : Script).declaredCall? = none :=
  declaredCall?_eq_none fun _ hstart => h (List.cons_prefix_cons.mp hstart).1.symm

theorem declaredCall?_of_short {script : Script} (h : script.bytes.length < 5) :
    script.declaredCall? = none := by
  refine declaredCall?_eq_none fun service hstart => ?_
  have hlength := hstart.length_le
  rw [List.length_cons, Service.operand, LittleEndian.length_encode] at hlength
  omega

theorem declaredCall?_of_operand (service : Service) (rest : List UInt8) :
    (⟨Instruction.syscall.code :: service.operand ++ rest⟩ : Script).declaredCall? =
      some service :=
  declaredCall?_eq_some_iff.mpr (List.prefix_append _ _)

/-- The call that a list of emissions declares, read off the first of them. -/
inductive Declares : List Emission → Option Service → Prop where
  | empty : Declares [] none
  | call (service : Service) (rest : List Emission) :
      Declares (.call service :: rest) (some service)
  | other {instruction : Instruction} (h : instruction ≠ .syscall) (rest : List Emission) :
      Declares (.bare instruction :: rest) none
  /-- A system call that was emitted alone takes the next four bytes for its operand. -/
  | spelled {rest : List Emission} {a b c d : UInt8} {more : List UInt8} {service : Service}
      (hbytes : rest.flatMap Emission.bytes = a :: b :: c :: d :: more)
      (hnumber : service.number.toNat =
        a.toNat + 256 * b.toNat + 65536 * c.toNat + 16777216 * d.toNat) :
      Declares (.bare .syscall :: rest) (some service)
  | cut {rest : List Emission} (hbytes : (rest.flatMap Emission.bytes).length < 4) :
      Declares (.bare .syscall :: rest) none

theorem Declares.declaredCall? {emissions : List Emission} {declared : Option Service}
    (h : Declares emissions declared) : (assemble emissions).declaredCall? = declared := by
  cases h with
  | empty => rfl
  | call service rest => exact declaredCall?_of_operand service _
  | other h rest => exact declaredCall?_of_ne (fun hcode => h (Instruction.code_injective hcode)) _
  | @spelled rest a b c d more service hbytes hnumber =>
    have hservice : service = Service.ofOperand [a, b, c, d] := by
      rw [← Service.toNat_number_ofOperand] at hnumber
      exact congrArg Service.mk (UInt32.toNat_inj.mp hnumber)
    have hoperand : service.operand = [a, b, c, d] := by
      rw [hservice, Service.operand_ofOperand rfl]
    have hscript : assemble (.bare .syscall :: rest) =
        ⟨Instruction.syscall.code :: service.operand ++ more⟩ := by
      simp only [assemble, List.flatMap_cons, Emission.bytes, hbytes, hoperand,
        List.cons_append, List.nil_append]
    rw [hscript]
    exact declaredCall?_of_operand service more
  | cut hbytes =>
    apply declaredCall?_of_short
    simp only [assemble, List.flatMap_cons, Emission.bytes, List.length_append,
      List.length_singleton]
    omega

theorem exists_declares : ∀ emissions : List Emission, ∃ declared, Declares emissions declared
  | [] => ⟨_, .empty⟩
  | .call service :: rest => ⟨_, .call service rest⟩
  | .bare instruction :: rest => by
    by_cases hsyscall : instruction = .syscall
    · subst hsyscall
      rcases hbytes : rest.flatMap Emission.bytes with _ | ⟨a, _ | ⟨b, _ | ⟨c, _ | ⟨d, more⟩⟩⟩⟩
      case cons.cons.cons.cons =>
        exact ⟨_, .spelled hbytes (Service.toNat_number_ofOperand a b c d)⟩
      all_goals exact ⟨_, .cut (by rw [hbytes]; simp)⟩
    · exact ⟨_, .other hsyscall rest⟩

/-- The script holds the emissions one after the other. What it declares is told by the first of
them and, if that is a system call without an operand, by the four bytes that come next. An
instruction takes one byte and a call five. -/
theorem declares_by_first_emission (emissions : List Emission) :
    assemble emissions = emissions.foldl emit ⟨[]⟩ ∧
      (∀ declared, (assemble emissions).declaredCall? = declared ↔ Declares emissions declared) ∧
      (assemble emissions).bytes.length =
        emissions.countP (!·.isCall) + 5 * emissions.countP (·.isCall) := by
  have hrun : emissions.foldl emit ⟨[]⟩ = assemble emissions := foldl_emit ⟨[]⟩ emissions
  have hlength := length_foldl_emit ⟨[]⟩ emissions
  rw [hrun, List.length_nil, Nat.zero_add] at hlength
  refine ⟨hrun.symm, fun declared => ⟨fun hdeclared => ?_, Declares.declaredCall?⟩, hlength⟩
  obtain ⟨found, hfound⟩ := exists_declares emissions
  rw [← hdeclared, hfound.declaredCall?]
  exact hfound

/-- The operand may reach into the call after it, whose own service then goes unseen. -/
example : (assemble [.bare .syscall, .call ⟨0x04030201⟩]).declaredCall? = some ⟨0x03020141⟩ := by
  decide

example : (assemble [.bare .nop, .call ⟨0x04030201⟩]).declaredCall? = none := by
  decide

end Script

end NativeContracts
