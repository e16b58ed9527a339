import LineBasic.Proofs.Tree.Written
import LineBasic.Session.Names
import LineBasic.Tree.Curry

/-!
# Well-scoped trees and values

A reference to a parameter is in scope if there are as many functions around it as it counts, and if
the one that it points at has a parameter at its position.  Around the body of a function there are
the function itself, with as many parameters as it takes, and the calls whose arguments it captured.

What is known of a captured frame differs: that it is there, or also how many arguments it has.  So
the predicates here take a map that gives the number of positions a frame is known to have.

* `Tree.ScopedIn`, `Closure.Scoped`, `Value.Scoped` — all references in scope, also those in
  captured values and in values that were put into trees.
* `scopedIn_resolveIn` — what resolving parameters leads to is well-scoped.
* `Closure.scoped_curry?` — so is a function with its first parameter fixed.
-/

set_option autoImplicit false
namespace LineBasic

/-! ## Scopes -/

/-- Whether a list of scopes, innermost first, has a parameter at a position of the one at a depth.
A scope is the number of its parameters, if that is known. -/
def InScope (bounds : List (Option Nat)) (depth index : Nat) : Prop :=
  ∃ b, bounds[depth]? = some b ∧ ∀ n, b = some n → index < n

/-- Whether what is known of one scope follows from what is known of another. -/
def Covers (b b' : Option Nat) : Prop :=
  ∀ n, b' = some n → ∃ m, b = some m ∧ m ≤ n

theorem covers_none (b : Option Nat) : Covers b none := nofun

theorem covers_some {m n : Nat} (h : m ≤ n) : Covers (some m) (some n) := by
  intro k hk
  cases hk
  exact ⟨m, rfl, h⟩

/-- Lists that differ in one place are the same at the others. -/
theorem getElem?_append_cons_of_ne {α : Type} {inner outer : List α} {a b : α} {k : Nat}
    (h : k ≠ inner.length) : (inner ++ a :: outer)[k]? = (inner ++ b :: outer)[k]? := by
  rw [List.getElem?_append, List.getElem?_append]
  split
  · rfl
  · obtain ⟨j, hj⟩ : ∃ j, k - inner.length = j + 1 := ⟨k - inner.length - 1, by omega⟩
    rw [hj, List.getElem?_cons_succ, List.getElem?_cons_succ]

theorem InScope.weaken {inner outer : List (Option Nat)} {b b' : Option Nat} {depth index : Nat}
    (h : InScope (inner ++ b :: outer) depth index) (hb : Covers b b') :
    InScope (inner ++ b' :: outer) depth index := by
  obtain ⟨c, hc, hindex⟩ := h
  by_cases hdepth : depth = inner.length
  · subst hdepth
    refine ⟨b', by simp, fun n hn ↦ ?_⟩
    obtain ⟨m, hm, hmn⟩ := hb n hn
    have : c = b := by simpa using hc.symm
    have := hindex m (this.trans hm)
    omega
  · exact ⟨c, (getElem?_append_cons_of_ne hdepth).symm.trans hc, hindex⟩

/-! ## Looking parameters up -/

/-- The fault of a parameter at a position that the function was given no argument for. -/
def Fault.missingArgument (depth index given : Nat) : Fault :=
  Binders.Stack.unbound depth index ("the function was given " ++ toString given ++ " arguments")

namespace Binders.Stack

variable {s : Stack} {depth index : Nat}

theorem lookup_eq_ok {frame : Frame} {v : Value} (hframe : s.frames[depth]? = some frame)
    (hv : frame[index]? = some v) : s.lookup depth index = .ok v := by
  have hdepth : ¬ (depth : Int) < 0 := by omega
  have hindex : ¬ (index : Int) < 0 := by omega
  simp only [lookup, hdepth, hindex, if_false, Int.toNat_natCast, hframe, hv]

theorem lookup_of_no_argument {frame : Frame} (hframe : s.frames[depth]? = some frame)
    (hindex : frame[index]? = none) :
    s.lookup depth index = .error (.missingArgument depth index frame.length) := by
  have hdepth : ¬ (depth : Int) < 0 := by omega
  have hindex' : ¬ (index : Int) < 0 := by omega
  simp only [lookup, hdepth, hindex', if_false, Int.toNat_natCast, hframe, hindex,
    Fault.missingArgument]

theorem lookup_of_no_frame (hframe : s.frames[depth]? = none) : s.lookup depth index =
      .error (unbound depth index
        ("only " ++ toString s.frames.length ++ " enclosing parameter frames are active")) := by
  have hdepth : ¬ (depth : Int) < 0 := by omega
  simp only [lookup, hdepth, if_false, Int.toNat_natCast, hframe]

theorem exists_of_lookup_eq_ok {v : Value} (h : s.lookup depth index = .ok v) :
    ∃ frame, s.frames[depth]? = some frame ∧ frame[index]? = some v := by
  cases hframe : s.frames[depth]? with
  | none =>
    rw [lookup_of_no_frame hframe] at h
    cases h
  | some frame =>
    cases hv : frame[index]? with
    | none =>
      rw [lookup_of_no_argument hframe hv] at h
      cases h
    | some w =>
      rw [lookup_eq_ok hframe hv] at h
      cases h
      exact ⟨frame, rfl, hv⟩

theorem mem_of_lookup_eq_ok {v : Value} (h : s.lookup depth index = .ok v) :
    ∃ frame ∈ s.frames, v ∈ frame := by
  obtain ⟨frame, hframe, hv⟩ := exists_of_lookup_eq_ok h
  exact ⟨frame, List.mem_of_getElem? hframe, List.mem_of_getElem? hv⟩

theorem lookup_congr {s' : Stack} (hframe : s'.frames[depth]? = s.frames[depth]?)
    (hlength : s'.frames.length = s.frames.length) :
    s'.lookup depth index = s.lookup depth index := by
  have hdepth : ¬ (depth : Int) < 0 := by omega
  simp only [lookup, hdepth, if_false, Int.toNat_natCast, hframe, hlength]

end Binders.Stack

/-! ## The predicates -/

section
variable (bound : Frame → Option Nat)

mutual

/-- A value in which all references to parameters are in scope. -/
def Value.Scoped : Value → Prop
  | .closure c => Closure.Scoped c
  | .listMonad elements => Value.AllScoped elements
  | .memoMonad held => Value.Scoped held
  | .composed functions => Closure.AllScoped functions
  | .number _ | .string _ | .boolean _ | .null | .array _ | .generator _ => True

/-- A function in which all references are in scope: its body under its own parameters and those of
the frames that it captured. -/
def Closure.Scoped : Closure → Prop
  | .mk arity body captured _ =>
    Tree.ScopedIn (some arity :: captured.map bound) body ∧ Frame.AllScoped captured

/-- A tree in which all references are in the given scopes, and that defines no named function. -/
def Tree.ScopedIn (bounds : List (Option Nat)) : Tree → Prop
  | .parameter depth index => InScope bounds depth index
  | .unary _ operand => Tree.ScopedIn bounds operand
  | .binary _ left right => Tree.ScopedIn bounds left ∧ Tree.ScopedIn bounds right
  | .call _ args _ => Tree.AllScopedIn bounds args
  | .apply callee args _ => Tree.ScopedIn bounds callee ∧ Tree.AllScopedIn bounds args
  | .array elements => Tree.AllScopedIn bounds elements
  | .lambda names body => Tree.ScopedIn (some names.length :: bounds) body
  | .branch condition yes no =>
    Tree.ScopedIn bounds condition ∧ Tree.ScopedIn bounds yes ∧ Tree.ElseScopedIn bounds no
  | .select _ test targets => Tree.ScopedIn bounds test ∧ Tree.AllScopedIn bounds targets
  | .define _ _ _ => False
  | .value v => Value.Scoped v
  | .null | .number _ | .string _ | .boolean _ | .ident _ | .params _ => True

/-- Values that are all well-scoped. -/
def Value.AllScoped : List Value → Prop
  | [] => True
  | v :: vs => Value.Scoped v ∧ Value.AllScoped vs

/-- Functions that are all well-scoped. -/
def Closure.AllScoped : List Closure → Prop
  | [] => True
  | c :: cs => Closure.Scoped c ∧ Closure.AllScoped cs

/-- Frames whose arguments are all well-scoped. -/
def Frame.AllScoped : List (List Value) → Prop
  | [] => True
  | frame :: frames => Value.AllScoped frame ∧ Frame.AllScoped frames

/-- Trees that are all well-scoped. -/
def Tree.AllScopedIn (bounds : List (Option Nat)) : List Tree → Prop
  | [] => True
  | t :: ts => Tree.ScopedIn bounds t ∧ Tree.AllScopedIn bounds ts

/-- Another branch that is well-scoped, if there is one. -/
def Tree.ElseScopedIn (bounds : List (Option Nat)) : Option Tree → Prop
  | none => True
  | some t => Tree.ScopedIn bounds t

end

variable {bound}

theorem Value.allScoped_iff {vs : List Value} :
    Value.AllScoped bound vs ↔ ∀ v ∈ vs, v.Scoped bound := by
  induction vs with
  | nil => simp [Value.AllScoped]
  | cons v vs ih => simp [Value.AllScoped, ih]

theorem Closure.allScoped_iff {cs : List Closure} :
    Closure.AllScoped bound cs ↔ ∀ c ∈ cs, c.Scoped bound := by
  induction cs with
  | nil => simp [Closure.AllScoped]
  | cons c cs ih => simp [Closure.AllScoped, ih]

theorem Frame.allScoped_iff {frames : List Frame} :
    Frame.AllScoped bound frames ↔ ∀ frame ∈ frames, ∀ v ∈ frame, v.Scoped bound := by
  induction frames with
  | nil => simp [Frame.AllScoped]
  | cons frame frames ih => simp [Frame.AllScoped, Value.allScoped_iff, ih]

theorem Tree.allScopedIn_iff {bounds : List (Option Nat)} {ts : List Tree} :
    Tree.AllScopedIn bound bounds ts ↔ ∀ t ∈ ts, t.ScopedIn bound bounds := by
  induction ts with
  | nil => simp [Tree.AllScopedIn]
  | cons t ts ih => simp [Tree.AllScopedIn, ih]

theorem Tree.elseScopedIn_iff {bounds : List (Option Nat)} {no : Option Tree} :
    Tree.ElseScopedIn bound bounds no ↔ ∀ t ∈ no, t.ScopedIn bound bounds := by
  cases no <;> simp [Tree.ElseScopedIn]

theorem Closure.scoped_iff {c : Closure} :
    c.Scoped bound ↔ c.body.ScopedIn bound (some c.arity :: c.captured.map bound) ∧
      ∀ frame ∈ c.captured, ∀ v ∈ frame, v.Scoped bound := by
  cases c
  rw [Closure.Scoped, Frame.allScoped_iff]
  rfl

/-! ## Occurrences -/

/-- Where a tree occurs in another, and the parameter lists of the functions of the latter that are
around it, innermost first. -/
inductive Tree.Occurs : List (List String) → Tree → Tree → Prop
  | here (t : Tree) : Occurs [] t t
  | operand {lists s op t} (h : Occurs lists s t) : Occurs lists s (.unary op t)
  | left {lists s op t u} (h : Occurs lists s t) : Occurs lists s (.binary op t u)
  | right {lists s op t u} (h : Occurs lists s u) : Occurs lists s (.binary op t u)
  | argument {lists s name args separators t} (ht : t ∈ args) (h : Occurs lists s t) :
      Occurs lists s (.call name args separators)
  | callee {lists s t args separators} (h : Occurs lists s t) :
      Occurs lists s (.apply t args separators)
  | applied {lists s callee args separators t} (ht : t ∈ args) (h : Occurs lists s t) :
      Occurs lists s (.apply callee args separators)
  | element {lists s elements t} (ht : t ∈ elements) (h : Occurs lists s t) :
      Occurs lists s (.array elements)
  | body {lists s names t} (h : Occurs lists s t) : Occurs (lists ++ [names]) s (.lambda names t)
  | condition {lists s t yes no} (h : Occurs lists s t) : Occurs lists s (.branch t yes no)
  | yes {lists s condition t no} (h : Occurs lists s t) : Occurs lists s (.branch condition t no)
  | no {lists s condition yes t} (h : Occurs lists s t) :
      Occurs lists s (.branch condition yes (some t))
  | test {lists s kind t targets} (h : Occurs lists s t) : Occurs lists s (.select kind t targets)
  | target {lists s kind test targets t} (ht : t ∈ targets) (h : Occurs lists s t) :
      Occurs lists s (.select kind test targets)
  | defined {lists s name names t} (h : Occurs lists s t) :
      Occurs (lists ++ [names]) s (.define name names t)

theorem Tree.Occurs.of_part {lists : List (List String)} {s t u : Tree} (ht : t ∈ u.parts)
    (h : Occurs lists s t) : Occurs lists s u := by
  cases u with
  | unary => exact .operand (List.mem_singleton.1 ht ▸ h)
  | binary =>
    rcases List.mem_cons.1 ht with rfl | ht
    · exact .left h
    · exact .right (List.mem_singleton.1 ht ▸ h)
  | call => exact .argument ht h
  | apply =>
    rcases List.mem_cons.1 ht with rfl | ht
    · exact .callee h
    · exact .applied ht h
  | array => exact .element ht h
  | branch =>
    rcases List.mem_cons.1 ht with rfl | ht
    · exact .condition h
    rcases List.mem_cons.1 ht with rfl | ht
    · exact .yes h
    · obtain rfl := Option.mem_toList.1 ht
      exact .no h
  | select =>
    rcases List.mem_cons.1 ht with rfl | ht
    · exact .test h
    · exact .target ht h
  | _ => nomatch ht

/-- What occurs in a well-scoped tree is well-scoped there. -/
theorem Tree.ScopedIn.of_occurs {s t : Tree} {lists : List (List String)}
    {bounds : List (Option Nat)} (h : t.ScopedIn bound bounds) (hs : Occurs lists s t) :
    s.ScopedIn bound (lists.map (some ·.length) ++ bounds) := by
  induction hs generalizing bounds with
  | here t => exact h
  | operand _ ih => exact ih h
  | left _ ih => exact ih h.1
  | right _ ih => exact ih h.2
  | argument ht _ ih => exact ih (allScopedIn_iff.1 h _ ht)
  | callee _ ih => exact ih h.1
  | applied ht _ ih => exact ih (allScopedIn_iff.1 h.2 _ ht)
  | element ht _ ih => exact ih (allScopedIn_iff.1 h _ ht)
  | body _ ih =>
    rw [List.map_append, List.append_assoc]
    exact ih h
  | condition _ ih => exact ih h.1
  | yes _ ih => exact ih h.2.1
  | no _ ih => exact ih h.2.2
  | test _ ih => exact ih h.1
  | target ht _ ih => exact ih (allScopedIn_iff.1 h.2 _ ht)
  | defined _ _ => exact h.elim

/-! ## Less known of a scope -/

/-- Knowing less of a scope keeps a tree well-scoped. -/
theorem Tree.ScopedIn.weaken {t : Tree} (inner : List (Option Nat)) {outer : List (Option Nat)}
    {b b' : Option Nat} (h : t.ScopedIn bound (inner ++ b :: outer)) (hb : Covers b b') :
    t.ScopedIn bound (inner ++ b' :: outer) := by
  induction t using Tree.induction generalizing inner with
  | unary op operand ih => exact ih inner h
  | binary op left right ihl ihr => exact ⟨ihl inner h.1, ihr inner h.2⟩
  | call name args separators ih =>
    exact allScopedIn_iff.2 fun t ht ↦ ih t ht inner (allScopedIn_iff.1 h t ht)
  | apply callee args separators ihc ih =>
    exact ⟨ihc inner h.1, allScopedIn_iff.2 fun t ht ↦ ih t ht inner (allScopedIn_iff.1 h.2 t ht)⟩
  | array elements ih =>
    exact allScopedIn_iff.2 fun t ht ↦ ih t ht inner (allScopedIn_iff.1 h t ht)
  | lambda names body ih => exact ih (some names.length :: inner) h
  | parameter depth index => exact InScope.weaken h hb
  | branch condition yes no ihc ihy ihn =>
    exact ⟨ihc inner h.1, ihy inner h.2.1,
      elseScopedIn_iff.2 fun t ht ↦ ihn t ht inner (elseScopedIn_iff.1 h.2.2 t ht)⟩
  | select kind test targets iht ih =>
    exact ⟨iht inner h.1, allScopedIn_iff.2 fun t ht ↦ ih t ht inner (allScopedIn_iff.1 h.2 t ht)⟩
  | _ => exact h

/-! ## Fixing the first parameter -/

theorem Tree.scopedIn_substitute {t : Tree} {v : Value} (inner : List (Option Nat))
    {outer : List (Option Nat)} {n : Nat} (h : t.ScopedIn bound (inner ++ some (n + 1) :: outer))
    (hv : v.Scoped bound) :
    (t.substitute v inner.length).ScopedIn bound (inner ++ some n :: outer) := by
  induction t using Tree.induction generalizing inner with
  | unary op operand ih => exact ih inner h
  | binary op left right ihl ihr => exact ⟨ihl inner h.1, ihr inner h.2⟩
  | call name args separators ih =>
    rw [substitute, ScopedIn, substituteAll_eq_map, allScopedIn_iff, List.forall_mem_map]
    exact fun t ht ↦ ih t ht inner (allScopedIn_iff.1 h t ht)
  | apply callee args separators ihc ih =>
    rw [substitute, ScopedIn, substituteAll_eq_map, allScopedIn_iff, List.forall_mem_map]
    exact ⟨ihc inner h.1, fun t ht ↦ ih t ht inner (allScopedIn_iff.1 h.2 t ht)⟩
  | array elements ih =>
    rw [substitute, ScopedIn, substituteAll_eq_map, allScopedIn_iff, List.forall_mem_map]
    exact fun t ht ↦ ih t ht inner (allScopedIn_iff.1 h t ht)
  | lambda names body ih => exact ih (some names.length :: inner) h
  | parameter depth index =>
    obtain ⟨b, hb, hindex⟩ := h
    by_cases hdepth : depth = inner.length
    · subst hdepth
      have : b = some (n + 1) := by simpa using hb.symm
      have := hindex _ this
      cases index with
      | zero => simpa [substitute, ScopedIn] using hv
      | succ index =>
        simp only [substitute, if_pos]
        refine ⟨some n, by simp, fun m hm ↦ ?_⟩
        cases hm
        omega
    · simp only [substitute, if_neg hdepth]
      exact ⟨b, (getElem?_append_cons_of_ne hdepth).symm.trans hb, hindex⟩
  | branch condition yes no ihc ihy ihn =>
    rw [substitute, ScopedIn, substituteElse_eq_map, elseScopedIn_iff]
    refine ⟨ihc inner h.1, ihy inner h.2.1, ?_⟩
    cases no with
    | none => simp
    | some no => simpa using ihn no rfl inner h.2.2
  | select kind test targets iht ih =>
    rw [substitute, ScopedIn, substituteAll_eq_map, allScopedIn_iff, List.forall_mem_map]
    exact ⟨iht inner h.1, fun t ht ↦ ih t ht inner (allScopedIn_iff.1 h.2 t ht)⟩
  | _ => exact h

/-- A well-scoped function with its first parameter fixed by a well-scoped value is well-scoped. -/
theorem Closure.scoped_curry? {c c' : Closure} {v : Value} (h : c.Scoped bound)
    (hv : v.Scoped bound) (hc : c.curry? v = some c') : c'.Scoped bound := by
  obtain ⟨arity, body, captured, name⟩ := c
  cases arity with
  | zero => cases hc
  | succ n =>
    cases hc
    exact ⟨Tree.scopedIn_substitute [] h.1 hv, h.2⟩

theorem Closure.scoped_rename {c : Closure} {name : String} (h : c.Scoped bound) :
    (c.rename name).Scoped bound := by
  cases c
  exact h

/-! ## Functions that are there from the start -/

theorem Builtin.scoped_closure (b : Builtin) (arity : Nat) : (b.closure arity).Scoped bound := by
  refine ⟨Tree.allScopedIn_iff.2 fun t ht ↦ ?_, trivial⟩
  obtain ⟨index, hindex, rfl⟩ := List.mem_map.1 ht
  refine ⟨some arity, rfl, fun n hn ↦ ?_⟩
  cases hn
  exact List.mem_range.1 hindex

theorem scoped_of_constant? {key : String} {v : Value} (h : constant? key = some v) :
    v.Scoped bound := by
  obtain ⟨e, he, rfl⟩ := Option.map_eq_some_iff.1 h
  have hid : InScope [some 1] 0 0 := ⟨some 1, rfl, fun n hn ↦ by cases hn; omega⟩
  have hall : ∀ e ∈ constants, e.2.Scoped bound := by
    simp only [constants, List.forall_mem_cons]
    exact ⟨trivial, trivial, trivial, trivial, ⟨hid, trivial⟩, trivial, trivial, trivial,
      List.forall_mem_nil _⟩
  exact hall e (List.mem_of_find?_eq_some he)

/-! ## Resolving parameters -/

theorem Binders.findFrom_inScope {name : String} {binders : Binders} {start depth index : Nat}
    (h : binders.findFrom name start = some (depth, index)) :
    ∃ k names, depth = start + k ∧ binders[k]? = some names ∧ names.idxOf? name = some index := by
  induction binders generalizing start with
  | nil => cases h
  | cons names binders ih =>
    rw [findFrom] at h
    split at h
    · cases h
      exact ⟨0, names, rfl, rfl, ‹_›⟩
    · obtain ⟨k, names', hk, hget, hidx⟩ := ih h
      exact ⟨k + 1, names', by omega, hget, hidx⟩

theorem Binders.find?_inScope {name : String} {binders : Binders} {depth index : Nat}
    (h : binders.find? name = some (depth, index)) :
    InScope (binders.map (some ·.length)) depth index := by
  obtain ⟨k, names, hk, hget, hidx⟩ := findFrom_inScope h
  rw [Nat.zero_add] at hk
  subst hk
  refine ⟨some names.length, by rw [List.getElem?_map, hget]; rfl, fun n hn ↦ ?_⟩
  cases hn
  exact (List.findIdx?_eq_some_iff_getElem.1 hidx).1

theorem Tree.scopedIn_signed {bounds : List (Option Nat)} {op : UnaryOperator} {operand : Tree}
    (h : operand.ScopedIn bound bounds) : (signed op operand).ScopedIn bound bounds := by
  unfold signed
  split
  · trivial
  · trivial
  · exact h

/-- What resolving the parameters of an expression leads to is well-scoped under its binders. -/
theorem Tree.scopedIn_resolveIn {t : Tree} (binders : Binders) (h : t.IsExpression) :
    (t.resolveIn binders).ScopedIn bound (binders.map (some ·.length)) := by
  induction t using Tree.induction generalizing binders with
  | ident name =>
    rw [resolveIn]
    split
    · exact Binders.find?_inScope ‹_›
    · trivial
  | unary op operand ih => exact scopedIn_signed (ih binders h)
  | binary op left right ihl ihr => exact ⟨ihl binders h.1, ihr binders h.2⟩
  | call name args separators ih =>
    have hargs : AllScopedIn bound (binders.map (some ·.length)) (resolveAll binders args) := by
      rw [resolveAll_eq_map, allScopedIn_iff, List.forall_mem_map]
      exact fun t ht ↦ ih t ht binders (areExpressions_iff.1 h t ht)
    rw [resolveIn]
    split
    · exact ⟨Binders.find?_inScope ‹_›, hargs⟩
    · exact hargs
  | apply callee args separators ihc ih =>
    rw [resolveIn, ScopedIn, resolveAll_eq_map, allScopedIn_iff, List.forall_mem_map]
    exact ⟨ihc binders h.1, fun t ht ↦ ih t ht binders (areExpressions_iff.1 h.2 t ht)⟩
  | array elements ih =>
    rw [resolveIn, ScopedIn, resolveAll_eq_map, allScopedIn_iff, List.forall_mem_map]
    exact fun t ht ↦ ih t ht binders (areExpressions_iff.1 h t ht)
  | lambda names body ih => exact ih (names :: binders) h
  | branch condition yes no ihc ihy ihn =>
    rw [resolveIn, ScopedIn, resolveElse_eq_map, elseScopedIn_iff]
    refine ⟨ihc binders h.1, ihy binders h.2.1, ?_⟩
    cases no with
    | none => simp
    | some no => simpa using ihn no rfl binders h.2.2
  | select kind test targets iht ih =>
    rw [resolveIn, ScopedIn, resolveAll_eq_map, allScopedIn_iff, List.forall_mem_map]
    exact ⟨iht binders h.1, fun t ht ↦ ih t ht binders (areExpressions_iff.1 h.2 t ht)⟩
  | parameter | value | define => exact h.elim
  | _ => trivial

/-- What resolving the parameters of a statement leads to is well-scoped. -/
theorem Tree.scopedIn_resolve {t : Tree} (h : t.IsStatement) : t.resolve.ScopedIn bound [] := by
  rw [resolve]
  induction h with
  | expression ht => exact scopedIn_resolveIn [] ht
  | define hbody => exact ⟨trivial, scopedIn_resolveIn [_] hbody⟩
  | branch hcondition hyes ih =>
    exact ⟨scopedIn_resolveIn [] hcondition, ih, trivial⟩
  | branchElse hcondition hyes hno ihy ihn =>
    exact ⟨scopedIn_resolveIn [] hcondition, ihy, ihn⟩

end
end LineBasic
