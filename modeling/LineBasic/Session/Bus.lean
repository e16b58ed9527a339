import LineBasic.Fault
import LineBasic.Table

/-!
# The memory bus

Programs may read and write bytes at integer addresses, if there is memory behind the bus.  An
address that was not written to holds zero.
-/

set_option autoImplicit false
namespace LineBasic

/-- What is behind the memory bus. -/
inductive Bus where
  | unavailable
  | memory (bytes : Table Int Nat)

namespace Bus

/-- Memory in which all bytes are zero. -/
def zeroed : Bus := .memory {}

/-- An access without memory. -/
def noMemory (access : String) (address : Int) : Fault :=
  .badCall ("memory bus not available (" ++ access ++ " " ++ toString address ++ ")")

/-- The byte at an address. -/
def peek (bus : Bus) (address : Int) : Except Fault Nat :=
  match bus with
  | unavailable => .error (noMemory "PEEK" address)
  | memory bytes => .ok ((bytes.get? address).getD 0)

/-- Writes the low eight bits of a number to an address. -/
def poke (bus : Bus) (address value : Int) : Except Fault Bus :=
  match bus with
  | unavailable => .error (noMemory "POKE" address)
  | memory bytes => .ok (.memory (bytes.insert address (value % 256).toNat))

/-- The bytes that were written, by address. -/
def written : Bus → List (Int × Nat)
  | unavailable => []
  | memory bytes => bytes.entries

end Bus

end LineBasic
