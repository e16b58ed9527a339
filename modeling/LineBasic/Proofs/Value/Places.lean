import LineBasic.Proofs.Tree.Builtins
import LineBasic.Proofs.Tree.Written
import LineBasic.Session.Names

/-!
# The arrays that values refer to

A value refers to the place of an array if it is that array, or if the array is kept somewhere in
it: in a monad, in a part of a composed function, among the arguments that a function captured, or
in the body of a function, where values are put that are given to it one by one.

* `Tree.values` — the values that were put into a tree.
* `Value.RefersTo`, `Value.Below` — the places that a value refers to, and that all of them are
  places of a heap of the given size.
* `Closure.below_curry?` — functions with a parameter fixed.
* `Tree.values_resolve` — source text has no values in it.
-/

set_option autoImplicit false
namespace LineBasic

/-! ## Values in trees -/

namespace Tree

mutual

/-- The values that were put into a tree. -/
def values : Tree → List Value
  | .value v => [v]
  | .unary _ operand => values operand
  | .binary _ left right => values left ++ values right
  | .call _ args _ => allValues args
  | .apply callee args _ => values callee ++ allValues args
  | .array elements => allValues elements
  | .lambda _ body | .define _ _ body => values body
  | .branch condition yes no => values condition ++ (values yes ++ elseValues no)
  | .select _ test targets => values test ++ allValues targets
  | .null | .number _ | .string _ | .boolean _ | .ident _ | .params _ | .parameter _ _ => []

/-- The values that were put into several trees. -/
def allValues : List Tree → List Value
  | [] => []
  | t :: ts => values t ++ allValues ts

/-- The values that were put into the other branch of a conditional. -/
def elseValues : Option Tree → List Value
  | none => []
  | some t => values t

end

variable {p : Value → Prop}

theorem forall_mem_allValues {ts : List Tree} :
    (∀ v ∈ allValues ts, p v) ↔ ∀ t ∈ ts, ∀ v ∈ t.values, p v := by
  induction ts with
  | nil => simp [allValues]
  | cons t ts ih => simp only [allValues, List.forall_mem_append, List.forall_mem_cons, ih]

theorem forall_mem_elseValues {no : Option Tree} :
    (∀ v ∈ elseValues no, p v) ↔ ∀ t ∈ no, ∀ v ∈ t.values, p v := by
  cases no <;> simp [elseValues]

theorem forall_values_parts {t : Tree} (h : ∀ v ∈ t.values, p v) :
    ∀ u ∈ t.parts, ∀ v ∈ u.values, p v := by
  cases t with
  | unary op operand => exact List.forall_mem_singleton.2 h
  | binary op left right =>
    obtain ⟨hl, hr⟩ := List.forall_mem_append.1 h
    exact List.forall_mem_cons.2 ⟨hl, List.forall_mem_singleton.2 hr⟩
  | call | array => exact forall_mem_allValues.1 h
  | apply | select =>
    obtain ⟨hfirst, hrest⟩ := List.forall_mem_append.1 h
    exact List.forall_mem_cons.2 ⟨hfirst, forall_mem_allValues.1 hrest⟩
  | branch condition yes no =>
    obtain ⟨hcondition, h⟩ := List.forall_mem_append.1 h
    obtain ⟨hyes, hno⟩ := List.forall_mem_append.1 h
    refine List.forall_mem_cons.2 ⟨hcondition, List.forall_mem_cons.2 ⟨hyes, fun u hu ↦ ?_⟩⟩
    exact forall_mem_elseValues.1 hno u (Option.mem_toList.1 hu)
  | _ => exact List.forall_mem_nil _

/-- With a value in the place of a parameter, a tree has the values that it had, and this one. -/
theorem forall_values_substitute {v : Value} (hv : p v) {t : Tree} (level : Nat)
    (h : ∀ w ∈ t.values, p w) : ∀ w ∈ (t.substitute v level).values, p w := by
  have hall : ∀ {ts : List Tree} {level : Nat},
      (∀ t ∈ ts, ∀ level, (∀ w ∈ t.values, p w) → ∀ w ∈ (t.substitute v level).values, p w) →
      (∀ w ∈ allValues ts, p w) → ∀ w ∈ allValues (substituteAll v level ts), p w := by
    intro ts level ih h
    rw [substituteAll_eq_map, forall_mem_allValues, List.forall_mem_map]
    exact fun t ht ↦ ih t ht level (forall_mem_allValues.1 h t ht)
  induction t using Tree.induction generalizing level with
  | unary op operand ih => exact ih level h
  | binary op left right ihl ihr =>
    rw [values, List.forall_mem_append] at h
    rw [substitute, values, List.forall_mem_append]
    exact ⟨ihl level h.1, ihr level h.2⟩
  | call name args separators ih => exact hall ih h
  | apply callee args separators ihc ih =>
    rw [values, List.forall_mem_append] at h
    rw [substitute, values, List.forall_mem_append]
    exact ⟨ihc level h.1, hall ih h.2⟩
  | array elements ih => exact hall ih h
  | lambda names body ih => exact ih (level + 1) h
  | parameter depth index =>
    obtain ⟨_, heq⟩ | heq := substitute_parameter v level depth index
    · exact heq ▸ List.forall_mem_nil _
    · exact heq ▸ List.forall_mem_singleton.2 hv
  | branch condition yes no ihc ihy ihn =>
    rw [values, List.forall_mem_append, List.forall_mem_append] at h
    rw [substitute, values, List.forall_mem_append, List.forall_mem_append, substituteElse_eq_map]
    refine ⟨ihc level h.1, ihy level h.2.1, ?_⟩
    cases no with
    | none => exact List.forall_mem_nil _
    | some no => exact ihn no rfl level h.2.2
  | select kind test targets iht ih =>
    rw [values, List.forall_mem_append] at h
    rw [substitute, values, List.forall_mem_append]
    exact ⟨iht level h.1, hall ih h.2⟩
  | _ => exact h

/-- Source text has no values in it, and resolving its parameters puts none there. -/
theorem values_resolveIn {t : Tree} (h : t.IsExpression) (binders : Binders) :
    (t.resolveIn binders).values = [] := by
  have hall : ∀ {ts : List Tree},
      (∀ t ∈ ts, t.IsExpression → ∀ binders, (t.resolveIn binders).values = []) →
      AreExpressions ts → ∀ binders, allValues (resolveAll binders ts) = [] := by
    intro ts ih h binders
    rw [List.eq_nil_iff_forall_not_mem, resolveAll_eq_map, forall_mem_allValues,
      List.forall_mem_map]
    exact fun t ht ↦
      List.eq_nil_iff_forall_not_mem.1 (ih t ht (areExpressions_iff.1 h t ht) binders)
  induction t using Tree.induction generalizing binders with
  | ident name =>
    rw [resolveIn]
    split <;> rfl
  | unary op operand ih =>
    have hoperand := ih h binders
    rw [resolveIn]
    unfold signed
    split
    · rfl
    · rfl
    · exact hoperand
  | binary op left right ihl ihr =>
    rw [resolveIn, values, ihl h.1 binders, ihr h.2 binders]
    rfl
  | call name args separators ih =>
    have hargs := hall ih h binders
    rw [resolveIn]
    split <;> exact hargs
  | apply callee args separators ihc ih =>
    rw [resolveIn, values, ihc h.1 binders, hall ih h.2 binders]
    rfl
  | array elements ih => exact hall ih h binders
  | lambda names body ih => exact ih h (names :: binders)
  | branch condition yes no ihc ihy ihn =>
    rw [resolveIn, values, ihc h.1 binders, ihy h.2.1 binders]
    cases no with
    | none => rfl
    | some no => exact ihn no rfl h.2.2 binders
  | select kind test targets iht ih =>
    rw [resolveIn, values, iht h.1 binders, hall ih h.2 binders]
    rfl
  | parameter | value | define => exact h.elim
  | _ => rfl

theorem values_resolve {t : Tree} (h : t.IsStatement) : t.resolve.values = [] := by
  rw [resolve]
  induction h with
  | expression ht => exact values_resolveIn ht []
  | define hbody => exact values_resolveIn hbody [_]
  | branch hcondition hyes ih =>
    rw [resolveIn, values, values_resolveIn hcondition [], ih]
    rfl
  | branchElse hcondition hyes hno ihy ihn =>
    rw [resolveIn, values, values_resolveIn hcondition [], ihy]
    exact ihn

end Tree

/-! ## Places in values -/

/-- The places that a value refers to, itself or by something that is kept in it. -/
inductive Value.RefersTo : Value → Nat → Prop
  | itself (place : Nat) : RefersTo (.array place) place
  | element {elements v place} (hv : v ∈ elements) (h : RefersTo v place) :
      RefersTo (.listMonad elements) place
  | held {v place} (h : RefersTo v place) : RefersTo (.memoMonad v) place
  | composed {functions c place} (hc : c ∈ functions) (h : RefersTo (.closure c) place) :
      RefersTo (.composed functions) place
  | captured {c : Closure} {frame v place} (hframe : frame ∈ c.captured) (hv : v ∈ frame)
      (h : RefersTo v place) : RefersTo (.closure c) place
  | put {c : Closure} {v place} (hv : v ∈ c.body.values) (h : RefersTo v place) :
      RefersTo (.closure c) place

/-- Whether a value refers to places of a heap of the given size only. -/
def Value.Below (n : Nat) (v : Value) : Prop :=
  ∀ place, v.RefersTo place → place < n

section
variable {m n : Nat} {v : Value} {c c' : Closure}

theorem Value.Below.mono (h : v.Below n) (hmn : n ≤ m) : v.Below m :=
  fun place hplace ↦ Nat.lt_of_lt_of_le (h place hplace) hmn

namespace Value

@[simp] theorem below_number (x : Float) : (number x).Below n := nofun

@[simp] theorem below_string (s : String) : (string s).Below n := nofun

@[simp] theorem below_boolean (b : Bool) : (boolean b).Below n := nofun

@[simp] theorem below_null : null.Below n := nofun

@[simp] theorem below_generator (g : Generator) : (generator g).Below n := nofun

theorem below_array {place : Nat} : (array place).Below n ↔ place < n :=
  ⟨fun h ↦ h place (.itself place), fun h _ hplace ↦ by cases hplace; exact h⟩

theorem below_listMonad {elements : List Value} :
    (listMonad elements).Below n ↔ ∀ v ∈ elements, v.Below n := by
  refine ⟨fun h v hv place hplace ↦ h place (.element hv hplace), fun h place hplace ↦ ?_⟩
  cases hplace with
  | element hv hplace => exact h _ hv place hplace

theorem below_memoMonad : (memoMonad v).Below n ↔ v.Below n := by
  refine ⟨fun h place hplace ↦ h place (.held hplace), fun h place hplace ↦ ?_⟩
  cases hplace with
  | held hplace => exact h place hplace

theorem below_composed {functions : List Closure} :
    (composed functions).Below n ↔ ∀ c ∈ functions, (closure c).Below n := by
  refine ⟨fun h c hc place hplace ↦ h place (.composed hc hplace), fun h place hplace ↦ ?_⟩
  cases hplace with
  | composed hc hplace => exact h _ hc place hplace

theorem below_closure : (closure c).Below n ↔
    (∀ frame ∈ c.captured, ∀ v ∈ frame, v.Below n) ∧ ∀ v ∈ c.body.values, v.Below n := by
  refine ⟨fun h ↦ ⟨fun frame hframe v hv place hplace ↦ h place (.captured hframe hv hplace),
    fun v hv place hplace ↦ h place (.put hv hplace)⟩, fun h place hplace ↦ ?_⟩
  cases hplace with
  | captured hframe hv hplace => exact h.1 _ hframe _ hv place hplace
  | put hv hplace => exact h.2 _ hv place hplace

end Value

theorem Closure.below_curry? (hc : (Value.closure c).Below n) (hv : v.Below n)
    (h : c.curry? v = some c') : (Value.closure c').Below n := by
  obtain ⟨hcaptured, hbody⟩ := Value.below_closure.1 hc
  obtain ⟨arity, body, captured, name⟩ := c
  cases arity with
  | zero => cases h
  | succ arity =>
    cases h
    exact Value.below_closure.2 ⟨hcaptured, Tree.forall_values_substitute hv 0 hbody⟩

theorem Closure.below_rename (name : String) (hc : (Value.closure c).Below n) :
    (Value.closure (c.rename name)).Below n := by
  obtain ⟨hcaptured, hbody⟩ := Value.below_closure.1 hc
  cases c
  exact Value.below_closure.2 ⟨hcaptured, hbody⟩

theorem Builtin.below_closure (b : Builtin) (arity : Nat) :
    (Value.closure (b.closure arity)).Below n := by
  have hparameters : ∀ t ∈ (List.range arity).map (Tree.parameter 0), ∀ v ∈ t.values, v.Below n :=
    List.forall_mem_map.2 fun _ _ ↦ List.forall_mem_nil _
  have hbody : ∀ v ∈ (b.closure arity).body.values, v.Below n :=
    Tree.forall_mem_allValues.2 hparameters
  exact Value.below_closure.2 ⟨List.forall_mem_nil _, hbody⟩

/-- The only constant that is an array is the empty array of `NIL`. -/
theorem below_of_constant? (hn : nilPlace < n) {key : String} (h : constant? key = some v) :
    v.Below n := by
  obtain ⟨e, he, rfl⟩ := Option.map_eq_some_iff.1 h
  have hid : (Value.closure (.mk 1 (.parameter 0 0) [] "ID")).Below n :=
    Value.below_closure.2 ⟨List.forall_mem_nil _, List.forall_mem_nil _⟩
  have hall : ∀ e ∈ constants, e.2.Below n := by
    simp only [constants, List.forall_mem_cons]
    exact ⟨Value.below_array.2 hn, Value.below_number _, Value.below_number _,
      Value.below_number _, hid, Value.below_null, Value.below_boolean _, Value.below_boolean _,
      List.forall_mem_nil _⟩
  exact hall e (List.mem_of_find?_eq_some he)

end
end LineBasic
