/-! The bounds one execution works under: references alive on its stacks, bytes of
an item and of its stored form, bytes of an integer, and contexts loaded at once. -/

namespace NativeContracts

structure Limits where
  maxStackSize : Nat := 2048
  maxItemSize : Nat := 1048576
  maxIntegerSize : Nat := 32
  maxInvocationDepth : Nat := 1024
  deriving DecidableEq, Inhabited

/-- The most bytes an integer keeps in a conversion or a balance, whatever the limits. -/
def integerWidth : Nat := 32

end NativeContracts
