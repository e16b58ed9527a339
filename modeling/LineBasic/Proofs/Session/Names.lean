import LineBasic.Proofs.Lockstep.Session
import LineBasic.Proofs.Text.Upper
import LineBasic.Statement

/-!
# Assigned variables

A name of a variable is neither that of a constant nor that of a builtin.  Such a name means the
value that was last assigned to it, and an assignment to it is refused for want of memory only.

* `IsVariable` — names of variables.
* `Session.lookup?_of_assign`, `Session.lookup?_of_assign_of_ne` — what names mean after an
  assignment.
* `Session.isBudget_of_assign` — why an assignment is refused.
-/

set_option autoImplicit false
namespace LineBasic

/-- A name that is neither that of a constant nor that of a builtin. -/
structure IsVariable (name : String) : Prop where
  not_constant : Variables.isConstant name = false
  not_builtin : Builtin.ofName? name = none

/-- The end of a statement that the memory of the session does not suffice for, or cannot be
compared with. -/
def Stop.IsBudget : Stop → Prop
  | .fault f => f.kind = .outOfMemory
  | .misfit => True
  | _ => False

theorem Stop.IsBudget.settle {stop : Stop} (h : stop.IsBudget) (site : Site) :
    (stop.settle site).IsBudget := by
  cases stop with
  | fault f =>
    change (f.locate site.line (some site.statement)).kind = .outOfMemory
    rw [Fault.locate]
    split <;> exact h
  | misfit => exact h
  | _ => cases h

namespace Session

variable {s s' : Session} {name : String} {v : Value}

theorem lookup_of_isVariable (hname : IsVariable name) (h : s.vars.lookup? name = some v) :
    s.lookup name = .ok v := by
  have hconstant := hname.not_constant
  have hbuiltin := hname.not_builtin
  rw [Variables.isConstant] at hconstant
  rw [Builtin.ofName?] at hbuiltin
  rw [Variables.lookup?] at h
  rw [lookup]
  simp only [Variables.isConstant, Variables.lookup?, Builtin.ofName?, Text.upper_upper, hconstant,
    hbuiltin, h]
  rfl

theorem define_of_isVariable (hname : IsVariable name) (vars : Variables) (v : Value) :
    vars.define name v = .ok ⟨vars.table.insert (Text.upper name) v⟩ := by
  have hconstant := hname.not_constant
  rw [Variables.isConstant] at hconstant
  rw [Variables.define, if_neg (by rw [hconstant]; decide)]

/-- An assignment to a variable is refused for want of memory only. -/
theorem isBudget_of_assign (hname : IsVariable name) :
    OnlyFails Stop.IsBudget (s.assign name v) := by
  rw [assign, define_of_isVariable hname]
  refine .bind ?_ fun isFull ↦ .ite (.error rfl) (.ok _)
  refine (Quantity.onlyFails_compute _ _ _ _).mono ?_
  rintro stop ⟨rfl, -⟩
  trivial

theorem lookup?_of_assign (hname : IsVariable name) (h : s.assign name v = .ok s') :
    s'.vars.lookup? name = some v := by
  obtain ⟨vars, hvars, rfl⟩ := eq_of_assign h
  rw [define_of_isVariable hname] at hvars
  cases hvars
  have hconstant := Option.isSome_eq_false_iff.1 hname.not_constant
  rw [Option.isNone_iff_eq_none] at hconstant
  rw [Variables.lookup?, hconstant]
  exact Table.get?_insert_self _ _ _

theorem lookup?_of_assign_of_ne (hname : IsVariable name) {other : String}
    (hother : Text.upper other ≠ Text.upper name) (h : s.assign name v = .ok s') :
    s'.vars.lookup? other = s.vars.lookup? other := by
  obtain ⟨vars, hvars, rfl⟩ := eq_of_assign h
  rw [define_of_isVariable hname] at hvars
  cases hvars
  simp only [Variables.lookup?]
  rw [Table.get?_insert_of_ne _ _ hother]

end Session
end LineBasic
