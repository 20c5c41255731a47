import NativeContracts.Script
import NativeContracts.Stack

/-! A loaded script and the stack it works on. -/

namespace NativeContracts

structure Frame where
  script : Script
  stack : Stack := {}
  deriving DecidableEq

namespace Frame

def declaredCall? (frame : Frame) : Option Service := frame.script.declaredCall?

end Frame

end NativeContracts
