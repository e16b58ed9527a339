import LineBasic.Proofs.Tree.Induction
import LineBasic.Proofs.Tree.Parsing

/-!
# What the parser returns

A parsed tree is written in names alone: it has no references to parameters and no values in it.
The definition of a named function is a statement; it stands where statements do, which is at the
top and in the branches of a conditional statement, and never inside an expression.

* `Tree.IsExpression`, `Tree.IsStatement` — the trees of expressions and of statements.
* `isWritten_invariant` — the parser returns such.
* `isStatement_of_parseRaw` — so all statements of a line are such trees.
-/

set_option autoImplicit false
namespace LineBasic

namespace Tree

mutual

/-- An expression as it is written. -/
def IsExpression : Tree → Prop
  | .parameter _ _ | .value _ | .define _ _ _ => False
  | .unary _ operand => IsExpression operand
  | .binary _ left right => IsExpression left ∧ IsExpression right
  | .call _ args _ => AreExpressions args
  | .apply callee args _ => IsExpression callee ∧ AreExpressions args
  | .array elements => AreExpressions elements
  | .lambda _ body => IsExpression body
  | .branch condition yes no => IsExpression condition ∧ IsExpression yes ∧ ElseIsExpression no
  | .select _ test targets => IsExpression test ∧ AreExpressions targets
  | .null | .number _ | .string _ | .boolean _ | .ident _ | .params _ => True

/-- Several expressions as they are written. -/
def AreExpressions : List Tree → Prop
  | [] => True
  | t :: ts => IsExpression t ∧ AreExpressions ts

/-- The other branch of a conditional expression as it is written. -/
def ElseIsExpression : Option Tree → Prop
  | none => True
  | some t => IsExpression t

end

theorem areExpressions_iff {ts : List Tree} : AreExpressions ts ↔ ∀ t ∈ ts, IsExpression t := by
  induction ts with
  | nil => simp [AreExpressions]
  | cons t ts ih => simp [AreExpressions, ih]

/-- A statement as it is written. -/
inductive IsStatement : Tree → Prop
  | expression {t : Tree} (ht : IsExpression t) : IsStatement t
  | define {name : String} {names : List String} {body : Tree} (hbody : IsExpression body) :
      IsStatement (.define name names body)
  | branch {condition yes : Tree} (hcondition : IsExpression condition) (hyes : IsStatement yes) :
      IsStatement (.branch condition yes none)
  | branchElse {condition yes no : Tree} (hcondition : IsExpression condition)
      (hyes : IsStatement yes) (hno : IsStatement no) :
      IsStatement (.branch condition yes (some no))

end Tree

open LineBasic.Tree

/-! ## The parser -/

/-- A tree as it is written: a statement, or else an expression. -/
def Tree.IsWritten (asStatement : Bool) (t : Tree) : Prop :=
  if asStatement then t.IsStatement else t.IsExpression

/-- All forms are put together from expressions, but that the branches of a conditional statement
are statements. -/
theorem isWritten_invariant (isBuiltin : String → Bool) (source : Source) :
    Parse.Invariant isBuiltin source (fun _ ↦ True) (fun _ ↦ True) IsWritten (fun _ ↦ True) where
  toParts := .all
  toRefusals := .all
  statement := .expression
  null := trivial
  number _ := trivial
  string _ := trivial
  boolean _ := trivial
  ident _ := trivial
  params _ := trivial
  unary _ _ h := h
  binary _ _ _ ht hu := ⟨ht, hu⟩
  lambda _ _ h := h
  array h := areExpressions_iff.2 h
  call _ _ h _ := areExpressions_iff.2 h
  apply ht _ h _ := ⟨ht, areExpressions_iff.2 h⟩
  dim := trivial
  define _ _ _ h := .define h
  select _ _ ht _ h := ⟨ht, areExpressions_iff.2 h⟩
  branch {_ _ _ _ _ _ no asStatement} _ _ _ _ _ hcondition hyes hno := by
    cases asStatement with
    | true =>
      cases no with
      | none => exact IsStatement.branch hcondition hyes
      | some t => exact IsStatement.branchElse hcondition hyes (hno t rfl)
    | false =>
      cases no with
      | none => exact ⟨hcondition, hyes, trivial⟩
      | some t => exact ⟨hcondition, hyes, hno t rfl⟩

/-! ## Lines -/

/-- All statements of a line are written as statements are. -/
theorem isStatement_of_parseTokens {isBuiltin : String → Bool} {line : Option Int}
    {tokens : List Token} {ts : List (Option Tree)} {t : Tree}
    (h : parseTokens isBuiltin line tokens = .ok ts) (ht : some t ∈ ts) : IsStatement t := by
  obtain ⟨items, run, -, -, hparse⟩ := exists_run_of_parseTokens h ht
  exact (isWritten_invariant isBuiltin _).good_of_parseStatement trivial hparse

theorem isStatement_of_parseRaw {isBuiltin : String → Bool} {line : Option Int} {text : String}
    {ts : List (Option Tree)} {t : Tree} (h : parseRaw isBuiltin line text = .ok ts)
    (ht : some t ∈ ts) : IsStatement t := by
  rw [parseRaw] at h
  split at h
  · cases h
    simp at ht
  · obtain ⟨tokens, -, h⟩ := bind_eq_ok.1 h
    exact isStatement_of_parseTokens h ht

end LineBasic
