import NativeContracts.Service

/-! Scripts that call services. A script is a list of bytes; it declares the call
that its first instruction makes, if that is a system call with its whole operand. -/

namespace NativeContracts

inductive Instruction where
  | push0
  | push1
  | nop
  | ret
  | syscall
  deriving DecidableEq

namespace Instruction

def name : Instruction → String
  | push0 => "PUSH0"
  | push1 => "PUSH1"
  | nop => "NOP"
  | ret => "RET"
  | syscall => "SYSCALL"

def code : Instruction → UInt8
  | push0 => 0x10
  | push1 => 0x11
  | nop => 0x21
  | ret => 0x40
  | syscall => 0x41

def ofCode? (byte : UInt8) : Option Instruction :=
  [push0, push1, nop, ret, syscall].find? fun instruction => instruction.code = byte

end Instruction

structure Script where
  bytes : List UInt8
  deriving DecidableEq

namespace Script

/-- What a script is put together from. `bare` adds an instruction without an operand. -/
inductive Emission where
  | bare (instruction : Instruction)
  | call (service : Service)
  deriving DecidableEq

def Emission.bytes : Emission → List UInt8
  | bare instruction => [instruction.code]
  | call service => Instruction.syscall.code :: service.operand

def assemble (emissions : List Emission) : Script := ⟨emissions.flatMap Emission.bytes⟩

/-- The script that calls `service` and does nothing else. -/
def calling (service : Service) : Script := assemble [.call service]

def declaredCall? (script : Script) : Option Service :=
  match script.bytes with
  | code :: a :: b :: c :: d :: _ =>
    if code = Instruction.syscall.code then some (Service.ofOperand [a, b, c, d]) else none
  | _ => none

theorem declaredCall?_eq_some_iff {script : Script} {service : Service} :
    script.declaredCall? = some service ↔
      Instruction.syscall.code :: service.operand <+: script.bytes := by
  constructor
  · intro h
    unfold declaredCall? at h
    split at h
    · next code a b c d rest hbytes =>
      split at h
      · next hcode =>
        cases h
        rw [hbytes, hcode, Service.operand_ofOperand rfl]
        exact ⟨rest, rfl⟩
      · cases h
    · cases h
  · rintro ⟨rest, hbytes⟩
    have hservice := service.ofOperand_operand
    simp only [Service.operand, LittleEndian.encode, List.cons_append, List.nil_append]
      at hbytes hservice
    simp only [declaredCall?, ← hbytes, hservice, if_true]

theorem declaredCall?_calling (service : Service) :
    (calling service).declaredCall? = some service := by
  have h := service.ofOperand_operand
  simp only [Service.operand, LittleEndian.encode] at h
  simpa [calling, assemble, Emission.bytes, declaredCall?, Service.operand, LittleEndian.encode]
    using h

end Script

end NativeContracts
