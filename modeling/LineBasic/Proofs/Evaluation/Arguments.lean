import LineBasic.Proofs.Evaluation.Operands

/-!
# Calling builtins on values

A builtin that works on values gets those that its arguments come to, whatever trees these are.

* `Supplies` — arguments that come to given values.
* `eval_of_supplies` — what a builtin then does.
* `Value.IsInteger` — numbers by their integer parts.
-/

set_option autoImplicit false
namespace LineBasic

/-- A number with the given integer part. -/
def Value.IsInteger (v : Value) (n : Int) : Prop :=
  ∃ x, v = .number x ∧ Number.truncate x = .ok n

theorem Quantity.sub_of_whole? {q : Quantity} {base : Int} (h : q.whole? = some base) (n : Int) :
    sub n q = .ok (whole (n - base)) := by
  rw [sub, compute, h]
  rfl

section
variable {enter : Closure → List Value → Action Value} {site : Site} {s s' : Session} {b : Builtin}
  {t : Tree} {args : List Tree} {vs : List Value}

/-- Arguments of a builtin that come to the given values, and the session that they leave. -/
def Supplies (enter : Closure → List Value → Action Value) (site : Site) (args : List Tree)
    (s : Session) (vs : List Value) (s' : Session) : Prop :=
  (evalAll enter site args >>= Operand.resolveAll) s = .ok vs s'

/-- A builtin that works on values gets those that the arguments come to. -/
theorem eval_of_supplies (happlies : t.Applies b args) (henabled : s.checkEnabled b = .ok ())
    (hraw : b.isRaw = false) (haccepts : b.accepts vs.length = true)
    (hargs : Supplies enter site args s vs s') : ∃ separators,
    eval enter site t s = b.invoke enter site separators (vs.map Operand.value) s' := by
  obtain ⟨separators, heval⟩ := eval_of_applies enter site happlies
  obtain ⟨xs, s₁, hxs, hvs⟩ := bind_run_eq_ok.1 hargs
  obtain ⟨rfl, hlength⟩ := Operand.of_resolveAll hvs
  refine ⟨separators, ?_⟩
  rw [heval, callBuiltin_eq henabled, bind_run_of_ok hxs,
    Builtin.invoke_resolved hraw (hlength ▸ haccepts), bind_run_of_ok hvs]

/-- The separators are of no account to a builtin of a fixed number of arguments. -/
theorem eval_of_supplies_arity (happlies : t.Applies b args) (henabled : s.checkEnabled b = .ok ())
    (hraw : b.isRaw = false) (harity : b.arity = some vs.length)
    (hargs : Supplies enter site args s vs s') :
    eval enter site t s = b.invoke enter site [] (vs.map Operand.value) s' := by
  have haccepts : b.accepts vs.length = true := by simp [Builtin.accepts, harity]
  obtain ⟨separators, heval⟩ := eval_of_supplies happlies henabled hraw haccepts hargs
  rw [heval, Builtin.invoke_separators harity]

namespace Builtin

theorem integer_of_isInteger (b : Builtin) {v : Value} {n : Int} (h : v.IsInteger n) (s : Session) :
    b.integer v s = .ok n s := by
  obtain ⟨x, rfl, hx⟩ := h
  change Action.ofNumber (Number.truncate x) s = _
  rw [hx]
  rfl

theorem mapM_integer (b : Builtin) {ns : List Int} (h : List.Forall₂ Value.IsInteger vs ns)
    (s : Session) : vs.mapM b.integer s = .ok ns s := by
  induction h with
  | nil => rfl
  | cons hv _ ih =>
    rw [List.mapM_cons]
    exact (bind_run_of_ok (b.integer_of_isInteger hv s)).trans (bind_run_of_ok ih)

end Builtin

end

end LineBasic
