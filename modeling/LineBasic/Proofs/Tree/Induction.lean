import LineBasic.Tree.Curry
import LineBasic.Tree.Scope

/-!
# Induction on trees

Trees have lists of trees in them, and an optional one.  Most statements about trees do not look
into the values that were put into them, so one induction principle serves them all: the hypotheses
about subtrees in a list come as one for each member.

The passes over trees in `LineBasic.Tree.Scope` and `LineBasic.Tree.Curry` treat the trees of a list
one by one, which is said here by `List.map`.
-/

set_option autoImplicit false
namespace LineBasic.Tree

/-- Induction on trees that stops at the values in them. -/
@[elab_as_elim]
theorem induction {motive : Tree → Prop} (null : motive .null) (number : ∀ x, motive (.number x))
    (string : ∀ s, motive (.string s)) (boolean : ∀ b, motive (.boolean b))
    (ident : ∀ name, motive (.ident name))
    (unary : ∀ op operand, motive operand → motive (.unary op operand))
    (binary : ∀ op left right, motive left → motive right → motive (.binary op left right))
    (call : ∀ name args separators, (∀ t ∈ args, motive t) → motive (.call name args separators))
    (apply : ∀ callee args separators, motive callee → (∀ t ∈ args, motive t) →
      motive (.apply callee args separators))
    (array : ∀ elements, (∀ t ∈ elements, motive t) → motive (.array elements))
    (params : ∀ names, motive (.params names))
    (lambda : ∀ names body, motive body → motive (.lambda names body))
    (parameter : ∀ depth index, motive (.parameter depth index))
    (branch : ∀ condition yes no, motive condition → motive yes → (∀ t ∈ no, motive t) →
      motive (.branch condition yes no))
    (select : ∀ kind test targets, motive test → (∀ t ∈ targets, motive t) →
      motive (.select kind test targets))
    (define : ∀ name names body, motive body → motive (.define name names body))
    (value : ∀ v, motive (.value v)) (t : Tree) : motive t :=
  Tree.rec (motive_1 := fun _ ↦ True) (motive_2 := fun _ ↦ True) (motive_3 := motive)
    (motive_4 := fun _ ↦ True) (motive_5 := fun _ ↦ True) (motive_6 := fun _ ↦ True)
    (motive_7 := fun ts ↦ ∀ t ∈ ts, motive t) (motive_8 := fun no ↦ ∀ t ∈ no, motive t)
    (fun _ ↦ trivial) (fun _ ↦ trivial) (fun _ ↦ trivial) trivial (fun _ ↦ trivial)
    (fun _ ↦ trivial) (fun _ _ ↦ trivial) (fun _ _ ↦ trivial) (fun _ _ ↦ trivial)
    (fun _ _ ↦ trivial) (fun _ _ _ _ _ _ ↦ trivial)
    null number string boolean ident unary binary call apply array params lambda parameter branch
    select define (fun v _ ↦ value v)
    trivial (fun _ _ _ _ ↦ trivial) trivial (fun _ _ _ _ ↦ trivial) trivial
    (fun _ _ _ _ ↦ trivial) (by simp) (fun _ _ ht hts ↦ by simpa using ⟨ht, hts⟩) (by simp)
    (fun _ ht ↦ by simpa using ht) t

/-- The subtrees of a tree that are evaluated in the course of evaluating it. -/
def parts : Tree → List Tree
  | .unary _ operand => [operand]
  | .binary _ left right => [left, right]
  | .call _ args _ => args
  | .apply callee args _ => callee :: args
  | .array elements => elements
  | .branch condition yes no => condition :: yes :: no.toList
  | .select _ test targets => test :: targets
  | _ => []

/-- Induction on the course of evaluation. -/
@[elab_as_elim]
theorem parts_induction {motive : Tree → Prop}
    (step : ∀ t, (∀ u ∈ t.parts, motive u) → motive t) (t : Tree) : motive t := by
  induction t using Tree.induction with
  | unary op operand ih => exact step _ (by simpa [parts] using ih)
  | binary op left right ihl ihr => exact step _ (by simpa [parts] using ⟨ihl, ihr⟩)
  | call name args separators ih => exact step _ ih
  | apply callee args separators ihc ih => exact step _ (List.forall_mem_cons.2 ⟨ihc, ih⟩)
  | array elements ih => exact step _ ih
  | branch condition yes no ihc ihy ihn => exact step _ (by simpa [parts] using ⟨ihc, ihy, ihn⟩)
  | select kind test targets iht ih => exact step _ (List.forall_mem_cons.2 ⟨iht, ih⟩)
  | _ => exact step _ nofun

/-! ## Passes over lists of trees -/

theorem resolveAll_eq_map (binders : Binders) (ts : List Tree) :
    resolveAll binders ts = ts.map (resolveIn binders) := by
  induction ts with
  | nil => rfl
  | cons t ts ih => rw [resolveAll, ih, List.map_cons]

theorem resolveElse_eq_map (binders : Binders) (no : Option Tree) :
    resolveElse binders no = no.map (resolveIn binders) := by
  cases no <;> rfl

theorem substituteAll_eq_map (v : Value) (level : Nat) (ts : List Tree) :
    substituteAll v level ts = ts.map (substitute v level) := by
  induction ts with
  | nil => rfl
  | cons t ts ih => rw [substituteAll, ih, List.map_cons]

theorem substituteElse_eq_map (v : Value) (level : Nat) (no : Option Tree) :
    substituteElse v level no = no.map (substitute v level) := by
  cases no <;> rfl

end LineBasic.Tree
