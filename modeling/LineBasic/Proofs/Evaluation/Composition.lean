import LineBasic.Proofs.Evaluation.Arguments

/-!
# Composed functions

A composed function is the list of the functions that it goes through, the one that is called first
first, while `f . g` is written with the one that is called last first.  Calling the list passes on
one value, so that a list with another one behind it is called as the one and then the other; what
the functions do, and where one of them fails, is of no account.

* `Callable.compose`, `Callable.call_compose` — two functions, of which either may be a list.
* `Value.IsComposition` — the value of `f . g`.
* `composition` — the result.
-/

set_option autoImplicit false
namespace LineBasic

/-! ## Functions one after the other -/

namespace Callable

/-- The function that calls `g`, and then `f` on what `g` gave. -/
def compose (f g : Callable) : Callable :=
  chain (g.functions ++ f.functions)

theorem compose_assoc (f g h : Callable) :
    (f.compose g).compose h = f.compose (g.compose h) :=
  congrArg chain (List.append_assoc _ _ _).symm

variable (enter : Closure → List Value → Action Value)

/-- A function is called on one argument by calling those that it goes through. -/
theorem call_functions (f : Callable) (x : Value) :
    f.call enter [x] = f.functions.foldlM (fun v c ↦ enter c [v]) x := by
  cases f with
  | single c => rw [functions, List.foldlM_cons]; simp only [List.foldlM_nil, bind_pure, call]
  | chain cs => rfl

/-- A composed function hands on the result of the one function to the other; nothing else happens
between the two. -/
theorem call_compose (f g : Callable) (x : Value) :
    (f.compose g).call enter [x] = g.call enter [x] >>= fun y ↦ f.call enter [y] := by
  simp only [call_functions]
  exact List.foldlM_append

end Callable

/-! ## Values that are functions -/

section
variable {enter : Closure → List Value → Action Value} {site : Site} {f g v x : Value}
  {k l : Callable} {s s' : Session}

theorem Builtin.function_run (b : Builtin) (h : v.callable? = some k) :
    b.function v = (return k : Action Callable) := by
  rw [Builtin.function, h]

theorem applyValue_of_callable (h : v.callable? = some k) (args : List Value) (name : String) :
    applyValue enter v args name = do return .value (← k.call enter args) := by
  unfold applyValue
  simp only [h]

theorem Builtin.applyOf_of_callable (b : Builtin) (h : v.callable? = some k) :
    b.applyOf enter v x = k.call enter [x] := by
  rw [Builtin.applyOf, b.function_run h, pure_bind]

theorem Builtin.composeOf_of_callable (b : Builtin) (hf : f.callable? = some k)
    (hg : g.callable? = some l) :
    b.composeOf f g = (return .composed (l.functions ++ k.functions) : Action Value) := by
  rw [Builtin.composeOf, b.function_run hf, b.function_run hg, pure_bind, pure_bind]

end

/-! ## The operator -/

/-- The value of the composition of two values, whatever trees they are written as. -/
def Value.IsComposition (v f g : Value) : Prop :=
  ∀ (enter : Closure → List Value → Action Value) (site : Site) (t : Tree) (args : List Tree)
    (s s' : Session), t.Applies .compose args → Supplies enter site args s [f, g] s' →
    eval enter site t s = .ok (.value v) s'

theorem isComposition_of_callable {f g : Value} {k l : Callable} (hf : f.callable? = some k)
    (hg : g.callable? = some l) :
    Value.IsComposition (.composed (l.functions ++ k.functions)) f g := by
  intro enter site t args s s' happlies hargs
  rw [eval_of_supplies_arity happlies (Session.checkEnabled_eq_ok.2 ⟨nofun, nofun⟩) rfl rfl hargs]
  have hcompose : Builtin.compose.composeOf f g s' =
      .ok (.composed (l.functions ++ k.functions)) s' := by
    rw [Builtin.composeOf_of_callable _ hf hg]
    rfl
  exact bind_run_of_ok hcompose

/-- Calling the composition of two values is calling the second and then the first. -/
theorem applyValue_composed {f g : Value} {k l : Callable} (hf : f.callable? = some k)
    (hg : g.callable? = some l) (enter : Closure → List Value → Action Value) (x : Value)
    (name : String) : applyValue enter (.composed (l.functions ++ k.functions)) [x] name =
      (do
        let y ← (← applyValue enter g [x] name).resolve
        applyValue enter f [y] name) := by
  have hfg : (Value.composed (l.functions ++ k.functions)).callable? = some (k.compose l) := rfl
  rw [applyValue_of_callable hfg, Callable.call_compose, applyValue_of_callable hg, bind_assoc,
    bind_assoc]
  refine bind_congr fun y ↦ ?_
  rw [pure_bind, Operand.resolve, pure_bind, applyValue_of_callable hf]

/-! ## The result -/

/-- The operator on functions is their composition.  Of any three functions, the first two and the
last two have values that are their composition, whatever expressions they are written as; called
on an argument, in a call or by `$`, the composition does what its second function does on the
argument and then what its first function does on the result of that, in every session, failures
and all; and composing all three from the left or from the right gives the same value. -/
theorem composition {f g h : Value} (hf : f.callable?.isSome = true)
    (hg : g.callable?.isSome = true) (hh : h.callable?.isSome = true) :
    ∃ fg gh fgh : Value, fg.IsComposition f g ∧ gh.IsComposition g h ∧
      fgh.IsComposition fg h ∧ fgh.IsComposition f gh ∧
      (∀ (enter : Closure → List Value → Action Value) (x : Value) (name : String),
        applyValue enter fg [x] name = do
          let y ← (← applyValue enter g [x] name).resolve
          applyValue enter f [y] name) ∧
      ∀ (enter : Closure → List Value → Action Value) (b : Builtin) (x : Value),
        b.applyOf enter fg x = b.applyOf enter g x >>= b.applyOf enter f := by
  obtain ⟨k, hf⟩ := Option.isSome_iff_exists.1 hf
  obtain ⟨l, hg⟩ := Option.isSome_iff_exists.1 hg
  obtain ⟨m, hh⟩ := Option.isSome_iff_exists.1 hh
  have hfg : (Value.composed (l.functions ++ k.functions)).callable? = some (k.compose l) := rfl
  have hgh : (Value.composed (m.functions ++ l.functions)).callable? = some (l.compose m) := rfl
  have hassoc := isComposition_of_callable hf hgh
  rw [Callable.compose, Callable.functions, List.append_assoc] at hassoc
  refine ⟨_, _, _, isComposition_of_callable hf hg, isComposition_of_callable hg hh,
    isComposition_of_callable hfg hh, hassoc, applyValue_composed hf hg, fun enter b x ↦ ?_⟩
  rw [b.applyOf_of_callable hfg, Callable.call_compose, b.applyOf_of_callable hg]
  exact bind_congr fun y ↦ (b.applyOf_of_callable hf).symm

/-- A function that negates, and then one that names a truth value. -/
theorem composition_named : ∃ (fg : Value) (s : Session),
    fg.IsComposition
      (.closure (.mk 1 (.branch (.parameter 0 0) (.string "YES") (some (.string "NO"))) [] ""))
      (.closure (.mk 1 (.branch (.parameter 0 0) (.boolean false) (some (.boolean true))) [] "")) ∧
    applyValue (callWithin ⟨1, 0⟩ 2) fg [.boolean true] "" s = .ok (.value (.string "NO")) s := by
  let naming := Tree.branch (.parameter 0 0) (.string "YES") (some (.string "NO"))
  let negation := Tree.branch (.parameter 0 0) (.boolean false) (some (.boolean true))
  obtain ⟨fg, -, -, hfg, -, -, -, hcall, -⟩ := composition (f := .closure (.mk 1 naming [] ""))
    (g := .closure (.mk 1 negation [] "")) (h := .composed []) rfl rfl rfl
  refine ⟨fg, .start {} {} .unavailable 0, hfg, ?_⟩
  rw [hcall]
  rfl

end LineBasic
