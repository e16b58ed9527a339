import LineBasic.Evaluation
import LineBasic.Proofs.Tree.Induction
import LineBasic.Tree.Curry

/-!
# The builtins of a tree

A builtin may be called where a tree is evaluated, or in a function that the tree forms and that is
called at another time.  A tree forms a function where it defines one, and where it names a builtin.

The predicates here take a test of builtins.  Functions are looked through to any depth: into those
that they form in their turn, those among the arguments that they captured, and those that were put
into them as values.

* `Tree.callsOnly` — the builtins that are called where a tree is evaluated.
* `Tree.formsOnly`, `Closure.usesOnly`, `Value.usesOnly` — the builtins in functions.
* `Closure.usesOnly_curry?` — functions with a parameter fixed.
-/

set_option autoImplicit false
namespace LineBasic

/-! ## Calls -/

namespace Tree

/-- The builtin that is called on the values of the parts of a tree, if there is one. -/
def builtin? : Tree → Option Builtin
  | .unary op _ => some (.ofUnary op)
  | .binary op _ _ => Builtin.ofOperator? op
  | .call name _ _ => Builtin.ofName? name
  | .select kind _ _ => some kind.builtin
  | _ => none

mutual

/-- Whether a test accepts all builtins that may be called where a tree is evaluated, apart from
those in functions that are called. -/
def callsOnly (p : Builtin → Bool) : Tree → Bool
  | .unary op operand => (unary op operand).builtin?.all p && callsOnly p operand
  | .binary op left right =>
    (binary op left right).builtin?.all p && (callsOnly p left && callsOnly p right)
  | .call name args separators =>
    (call name args separators).builtin?.all p && allCallOnly p args
  | .apply callee args _ => callsOnly p callee && allCallOnly p args
  | .array elements => allCallOnly p elements
  | .branch condition yes no => callsOnly p condition && (callsOnly p yes && elseCallsOnly p no)
  | .select kind test targets =>
    (select kind test targets).builtin?.all p && (callsOnly p test && allCallOnly p targets)
  | _ => true

/-- Whether a test accepts all builtins that may be called where several trees are evaluated. -/
def allCallOnly (p : Builtin → Bool) : List Tree → Bool
  | [] => true
  | t :: ts => callsOnly p t && allCallOnly p ts

/-- Whether a test accepts all builtins that may be called in the other branch of a conditional. -/
def elseCallsOnly (p : Builtin → Bool) : Option Tree → Bool
  | none => true
  | some t => callsOnly p t

end

variable {p : Builtin → Bool}

theorem allCallOnly_iff {ts : List Tree} :
    allCallOnly p ts = true ↔ ∀ t ∈ ts, t.callsOnly p = true := by
  induction ts with
  | nil => simp [allCallOnly]
  | cons t ts ih => simp [allCallOnly, ih]

theorem elseCallsOnly_iff {no : Option Tree} :
    elseCallsOnly p no = true ↔ ∀ t ∈ no, t.callsOnly p = true := by
  cases no <;> simp [elseCallsOnly]

theorem callsOnly_iff {t : Tree} : t.callsOnly p = true ↔
    (∀ b ∈ t.builtin?, p b = true) ∧ ∀ u ∈ t.parts, u.callsOnly p = true := by
  cases t <;>
    simp [callsOnly, builtin?, parts, allCallOnly_iff, elseCallsOnly_iff, Option.all_eq_true]

theorem callsOnly_of_forall (h : ∀ b, p b = true) (t : Tree) : t.callsOnly p = true := by
  induction t using Tree.parts_induction with
  | step t ih => exact callsOnly_iff.2 ⟨fun b _ ↦ h b, ih⟩

end Tree

/-! ## Functions -/

section
variable (p : Builtin → Bool)

mutual

/-- Whether a test accepts the builtins that all functions in a value use. -/
def Value.usesOnly : Value → Bool
  | .closure c => Closure.usesOnly c
  | .listMonad elements => Value.allUseOnly elements
  | .memoMonad held => Value.usesOnly held
  | .composed functions => Closure.allUseOnly functions
  | .number _ | .string _ | .boolean _ | .null | .array _ | .generator _ => true

/-- Whether a test accepts the builtins that a function uses, itself and in all functions in it. -/
def Closure.usesOnly : Closure → Bool
  | .mk _ body captured _ =>
    body.callsOnly p && (Tree.formsOnly body && Frame.allUseOnly captured)

/-- Whether a test accepts the builtins that the functions use that a tree forms. -/
def Tree.formsOnly : Tree → Bool
  | .ident name => (Builtin.ofName? name).all p
  | .unary _ operand => Tree.formsOnly operand
  | .binary _ left right => Tree.formsOnly left && Tree.formsOnly right
  | .call _ args _ => Tree.allFormOnly args
  | .apply callee args _ => Tree.formsOnly callee && Tree.allFormOnly args
  | .array elements => Tree.allFormOnly elements
  | .lambda _ body | .define _ _ body => body.callsOnly p && Tree.formsOnly body
  | .branch condition yes no =>
    Tree.formsOnly condition && (Tree.formsOnly yes && Tree.elseFormsOnly no)
  | .select _ test targets => Tree.formsOnly test && Tree.allFormOnly targets
  | .value v => Value.usesOnly v
  | .null | .number _ | .string _ | .boolean _ | .params _ | .parameter _ _ => true

/-- Whether a test accepts the builtins that all functions in several values use. -/
def Value.allUseOnly : List Value → Bool
  | [] => true
  | v :: vs => Value.usesOnly v && Value.allUseOnly vs

/-- Whether a test accepts the builtins that several functions use. -/
def Closure.allUseOnly : List Closure → Bool
  | [] => true
  | c :: cs => Closure.usesOnly c && Closure.allUseOnly cs

/-- Whether a test accepts the builtins that all functions in several frames use. -/
def Frame.allUseOnly : List (List Value) → Bool
  | [] => true
  | frame :: frames => Value.allUseOnly frame && Frame.allUseOnly frames

/-- Whether a test accepts the builtins that the functions use that several trees form. -/
def Tree.allFormOnly : List Tree → Bool
  | [] => true
  | t :: ts => Tree.formsOnly t && Tree.allFormOnly ts

/-- Whether a test accepts the builtins that the functions use that the other branch of a conditional
forms, if there is one. -/
def Tree.elseFormsOnly : Option Tree → Bool
  | none => true
  | some t => Tree.formsOnly t

end

end

section
variable {p : Builtin → Bool}

theorem Value.allUseOnly_iff {vs : List Value} :
    Value.allUseOnly p vs = true ↔ ∀ v ∈ vs, v.usesOnly p = true := by
  induction vs with
  | nil => simp [Value.allUseOnly]
  | cons v vs ih => simp [Value.allUseOnly, ih]

theorem Closure.allUseOnly_iff {cs : List Closure} :
    Closure.allUseOnly p cs = true ↔ ∀ c ∈ cs, c.usesOnly p = true := by
  induction cs with
  | nil => simp [Closure.allUseOnly]
  | cons c cs ih => simp [Closure.allUseOnly, ih]

theorem Frame.allUseOnly_iff {frames : List Frame} : Frame.allUseOnly p frames = true ↔
    ∀ frame ∈ frames, ∀ v ∈ frame, v.usesOnly p = true := by
  induction frames with
  | nil => simp [Frame.allUseOnly]
  | cons frame frames ih => simp [Frame.allUseOnly, Value.allUseOnly_iff, ih]

theorem Tree.allFormOnly_iff {ts : List Tree} :
    Tree.allFormOnly p ts = true ↔ ∀ t ∈ ts, t.formsOnly p = true := by
  induction ts with
  | nil => simp [Tree.allFormOnly]
  | cons t ts ih => simp [Tree.allFormOnly, ih]

theorem Tree.elseFormsOnly_iff {no : Option Tree} :
    Tree.elseFormsOnly p no = true ↔ ∀ t ∈ no, t.formsOnly p = true := by
  cases no <;> simp [Tree.elseFormsOnly]

theorem Closure.usesOnly_iff {c : Closure} : c.usesOnly p = true ↔ c.body.callsOnly p = true ∧
    c.body.formsOnly p = true ∧ ∀ frame ∈ c.captured, ∀ v ∈ frame, v.usesOnly p = true := by
  cases c
  rw [Closure.usesOnly, Bool.and_eq_true, Bool.and_eq_true, Frame.allUseOnly_iff]
  rfl

theorem Tree.forall_parts_formsOnly {t : Tree} (h : t.formsOnly p = true) :
    ∀ u ∈ t.parts, u.formsOnly p = true := by
  cases t <;> simp_all [formsOnly, parts, allFormOnly_iff, elseFormsOnly_iff]

/-! ## Fixing the first parameter -/

/-- A reference to a parameter remains one, or the value takes its place. -/
theorem Tree.substitute_parameter (v : Value) (level depth index : Nat) :
    (∃ index', (parameter depth index).substitute v level = .parameter depth index') ∨
      (parameter depth index).substitute v level = .value v := by
  by_cases hdepth : depth = level
  · cases index with
    | zero => exact .inr (by simp only [substitute, if_pos hdepth])
    | succ index => exact .inl ⟨index, by simp only [substitute, if_pos hdepth]⟩
  · exact .inl ⟨index, by simp only [substitute, if_neg hdepth]⟩

theorem Tree.builtin?_substitute (v : Value) (level : Nat) (t : Tree) :
    (t.substitute v level).builtin? = t.builtin? := by
  cases t with
  | parameter depth index =>
    obtain ⟨_, h⟩ | h := substitute_parameter v level depth index <;> rw [h] <;> rfl
  | _ => rfl

theorem Tree.parts_substitute (v : Value) (level : Nat) (t : Tree) :
    (t.substitute v level).parts = t.parts.map (substitute v level) := by
  cases t with
  | parameter depth index =>
    obtain ⟨_, h⟩ | h := substitute_parameter v level depth index <;> rw [h] <;> rfl
  | branch condition yes no => cases no <;> rfl
  | _ => simp [substitute, parts, substituteAll_eq_map]

theorem Tree.callsOnly_substitute {v : Value} {t : Tree} (level : Nat) (h : t.callsOnly p = true) :
    (t.substitute v level).callsOnly p = true := by
  induction t using Tree.parts_induction with
  | step t ih =>
  obtain ⟨hbuiltin, hparts⟩ := callsOnly_iff.1 h
  rw [callsOnly_iff, builtin?_substitute, parts_substitute, List.forall_mem_map]
  exact ⟨hbuiltin, fun u hu ↦ ih u hu (hparts u hu)⟩

theorem Tree.formsOnly_substitute {v : Value} (hv : v.usesOnly p = true) {t : Tree} (level : Nat)
    (h : t.formsOnly p = true) : (t.substitute v level).formsOnly p = true := by
  induction t using Tree.induction generalizing level with
  | unary op operand ih => exact ih level h
  | binary op left right ihl ihr =>
    rw [formsOnly, Bool.and_eq_true] at h
    rw [substitute, formsOnly, ihl level h.1, ihr level h.2]
    rfl
  | call name args separators ih =>
    rw [substitute, formsOnly, substituteAll_eq_map, allFormOnly_iff, List.forall_mem_map]
    exact fun t ht ↦ ih t ht level (allFormOnly_iff.1 h t ht)
  | apply callee args separators ihc ih =>
    rw [formsOnly, Bool.and_eq_true] at h
    rw [substitute, formsOnly, Bool.and_eq_true, substituteAll_eq_map, allFormOnly_iff,
      List.forall_mem_map]
    exact ⟨ihc level h.1, fun t ht ↦ ih t ht level (allFormOnly_iff.1 h.2 t ht)⟩
  | array elements ih =>
    rw [substitute, formsOnly, substituteAll_eq_map, allFormOnly_iff, List.forall_mem_map]
    exact fun t ht ↦ ih t ht level (allFormOnly_iff.1 h t ht)
  | lambda names body ih =>
    rw [formsOnly, Bool.and_eq_true] at h
    rw [substitute, formsOnly, callsOnly_substitute (level + 1) h.1, ih (level + 1) h.2]
    rfl
  | parameter depth index =>
    obtain ⟨_, h⟩ | h := substitute_parameter v level depth index
    · exact h ▸ rfl
    · exact h ▸ hv
  | branch condition yes no ihc ihy ihn =>
    rw [formsOnly, Bool.and_eq_true, Bool.and_eq_true] at h
    rw [substitute, formsOnly, substituteElse_eq_map, ihc level h.1, ihy level h.2.1]
    cases no with
    | none => rfl
    | some no => exact ihn no rfl level h.2.2
  | select kind test targets iht ih =>
    rw [formsOnly, Bool.and_eq_true] at h
    rw [substitute, formsOnly, Bool.and_eq_true, substituteAll_eq_map, allFormOnly_iff,
      List.forall_mem_map]
    exact ⟨iht level h.1, fun t ht ↦ ih t ht level (allFormOnly_iff.1 h.2 t ht)⟩
  | _ => exact h

theorem Closure.usesOnly_curry? {c c' : Closure} {v : Value} (h : c.usesOnly p = true)
    (hv : v.usesOnly p = true) (hc : c.curry? v = some c') : c'.usesOnly p = true := by
  obtain ⟨hbody, hforms, hcaptured⟩ := usesOnly_iff.1 h
  obtain ⟨arity, body, captured, name⟩ := c
  cases arity with
  | zero => cases hc
  | succ n =>
    cases hc
    exact usesOnly_iff.2
      ⟨Tree.callsOnly_substitute 0 hbody, Tree.formsOnly_substitute hv 0 hforms, hcaptured⟩

theorem Closure.usesOnly_rename {c : Closure} (name : String) (h : c.usesOnly p = true) :
    (c.rename name).usesOnly p = true := by
  cases c
  exact h

/-! ## Functions that are there from the start -/

theorem Builtin.ofName?_name (b : Builtin) : ofName? b.name = some b := by
  have hall : ∀ b ∈ all, ofName? b.name = some b := by decide +kernel
  exact hall b (mem_all b)

theorem Builtin.usesOnly_closure {b : Builtin} (hb : p b = true) (arity : Nat) :
    (b.closure arity).usesOnly p = true := by
  have hparameters : ∀ t ∈ (List.range arity).map (Tree.parameter 0),
      t.callsOnly p = true ∧ t.formsOnly p = true :=
    List.forall_mem_map.2 fun _ _ ↦ ⟨rfl, rfl⟩
  refine Closure.usesOnly_iff.2 ⟨Tree.callsOnly_iff.2 ⟨fun b' hb' ↦ ?_, fun t ht ↦
    (hparameters t ht).1⟩, Tree.allFormOnly_iff.2 fun t ht ↦ (hparameters t ht).2,
    List.forall_mem_nil _⟩
  obtain rfl := Option.some.inj (b.ofName?_name.symm.trans hb')
  exact hb

theorem usesOnly_of_constant? {key : String} {v : Value} (h : constant? key = some v) :
    v.usesOnly p = true := by
  obtain ⟨e, he, rfl⟩ := Option.map_eq_some_iff.1 h
  have hall : ∀ e ∈ constants, e.2.usesOnly p = true := by
    simp only [constants, List.forall_mem_cons]
    exact ⟨rfl, rfl, rfl, rfl, rfl, rfl, rfl, rfl, List.forall_mem_nil _⟩
  exact hall e (List.mem_of_find?_eq_some he)

end
end LineBasic
