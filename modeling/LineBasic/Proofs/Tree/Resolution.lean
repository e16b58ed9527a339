import LineBasic.Proofs.Tree.Scoping
import LineBasic.Session.Binders
import LineBasic.Tree.Line
import Mathlib

/-!
# Resolution is lexical scoping

`Tree.Resolves` says what it is to resolve the parameters of a tree, by the rules of lexical
scoping: the innermost function around a use that has a parameter of the name binds it.  Parameter
lists stand outermost first here, as they are read.

* `resolves_iff` — `Tree.resolveIn` is that relation.
* `lookup_of_boundAt` — a reference finds the argument for the parameter that binds the name.
* `resolve_resolve` — resolving once is enough.
* `resolve_isLexical` — all of it, for the trees that the parser returns.
-/

set_option autoImplicit false
namespace LineBasic

/-! ## Lexical scoping -/

/-- A name is bound by the `j`-th of the parameter lists around it, in which it stands at `k`. -/
structure BoundAt (lists : List (List String)) (name : String) (j k : Nat) : Prop where
  position : ∃ names, lists[j]? = some names ∧ names[k]? = some name ∧ name ∉ names.take k
  /-- No function further in has a parameter of the name. -/
  innermost : ∀ names ∈ lists.drop (j + 1), name ∉ names

/-- A name that no function around it binds. -/
def IsFree (lists : List (List String)) (name : String) : Prop :=
  ∀ names ∈ lists, name ∉ names

/-- The rules of resolving: a bound name becomes a reference, the definition of a named function
becomes an assignment, and a number literal takes its sign in. -/
inductive Tree.Resolves : List (List String) → Tree → Tree → Prop
  | null {lists} : Resolves lists .null .null
  | number {lists x} : Resolves lists (.number x) (.number x)
  | string {lists s} : Resolves lists (.string s) (.string s)
  | boolean {lists b} : Resolves lists (.boolean b) (.boolean b)
  | bound {lists name j k} (h : BoundAt lists name j k) :
      Resolves lists (.ident name) (.parameter (lists.length - 1 - j) k)
  | free {lists name} (h : IsFree lists name) : Resolves lists (.ident name) (.ident name)
  | minus {lists t x} (ht : Resolves lists t (.number x)) :
      Resolves lists (.unary .minus t) (.number (-x))
  | plus {lists t x} (ht : Resolves lists t (.number x)) :
      Resolves lists (.unary .plus t) (.number x)
  | unary {lists op t t'} (hop : ∀ x, t' = .number x → op ≠ .minus ∧ op ≠ .plus)
      (ht : Resolves lists t t') : Resolves lists (.unary op t) (.unary op t')
  | binary {lists op t t' u u'} (ht : Resolves lists t t') (hu : Resolves lists u u') :
      Resolves lists (.binary op t u) (.binary op t' u')
  | callBound {lists name j k args args' separators} (h : BoundAt lists name j k)
      (hlength : args'.length = args.length)
      (hargs : ∀ p ∈ args.zip args', Resolves lists p.1 p.2) :
      Resolves lists (.call name args separators)
        (.apply (.parameter (lists.length - 1 - j) k) args' separators)
  | callFree {lists name args args' separators} (h : IsFree lists name)
      (hlength : args'.length = args.length)
      (hargs : ∀ p ∈ args.zip args', Resolves lists p.1 p.2) :
      Resolves lists (.call name args separators) (.call name args' separators)
  | apply {lists t t' args args' separators} (ht : Resolves lists t t')
      (hlength : args'.length = args.length)
      (hargs : ∀ p ∈ args.zip args', Resolves lists p.1 p.2) :
      Resolves lists (.apply t args separators) (.apply t' args' separators)
  | array {lists elements elements'} (hlength : elements'.length = elements.length)
      (helements : ∀ p ∈ elements.zip elements', Resolves lists p.1 p.2) :
      Resolves lists (.array elements) (.array elements')
  | params {lists names} : Resolves lists (.params names) (.params names)
  | lambda {lists names body body'} (h : Resolves (lists ++ [names]) body body') :
      Resolves lists (.lambda names body) (.lambda names body')
  | parameter {lists d i} : Resolves lists (.parameter d i) (.parameter d i)
  | branch {lists c c' y y'} (hc : Resolves lists c c') (hy : Resolves lists y y') :
      Resolves lists (.branch c y none) (.branch c' y' none)
  | branchElse {lists c c' y y' n n'} (hc : Resolves lists c c') (hy : Resolves lists y y')
      (hn : Resolves lists n n') : Resolves lists (.branch c y (some n)) (.branch c' y' (some n'))
  | select {lists kind t t' targets targets'} (ht : Resolves lists t t')
      (hlength : targets'.length = targets.length)
      (htargets : ∀ p ∈ targets.zip targets', Resolves lists p.1 p.2) :
      Resolves lists (.select kind t targets) (.select kind t' targets')
  | define {lists name names body body'} (h : Resolves (lists ++ [names]) body body') :
      Resolves lists (.define name names body)
        (.binary .assign (.ident name) (.lambda names body'))
  | value {lists v} : Resolves lists (.value v) (.value v)

/-! ## Finding the binder -/

theorem idxOf?_eq_some_iff {names : List String} {name : String} {k : Nat} :
    names.idxOf? name = some k ↔ names[k]? = some name ∧ name ∉ names.take k := by
  induction names generalizing k with
  | nil => simp
  | cons first names ih =>
    rw [List.idxOf?_cons]
    by_cases h : first = name
    · subst h
      cases k <;> simp
    · cases k with
      | zero => simp [h]
      | succ k => simp [h, ih, Ne.symm h]

namespace Binders

theorem findFrom_eq_none_iff {name : String} {binders : Binders} {start : Nat} :
    binders.findFrom name start = none ↔ ∀ names ∈ binders, name ∉ names := by
  induction binders generalizing start with
  | nil => simp [findFrom]
  | cons names binders ih =>
    rw [findFrom, List.forall_mem_cons, ← List.idxOf?_eq_none_iff]
    cases names.idxOf? name with
    | none => simp [ih]
    | some k => simp

theorem findFrom_eq_some_iff {name : String} {binders : Binders} {start depth k : Nat} :
    binders.findFrom name start = some (depth, k) ↔
      ∃ i names, depth = start + i ∧ binders[i]? = some names ∧ names.idxOf? name = some k ∧
        ∀ names ∈ binders.take i, name ∉ names := by
  induction binders generalizing start with
  | nil => simp [findFrom]
  | cons names binders ih =>
    rw [findFrom]
    cases hidx : names.idxOf? name with
    | some j =>
      have hmem : name ∈ names := by
        rw [← Decidable.not_not (p := name ∈ names), ← List.idxOf?_eq_none_iff, hidx]
        exact Option.some_ne_none j
      constructor
      · intro h
        cases h
        exact ⟨0, names, rfl, rfl, hidx, by simp⟩
      · rintro ⟨i, names', hdepth, hget, hk, hfree⟩
        cases i with
        | zero =>
          cases hget
          rw [hidx] at hk
          cases hk
          exact congrArg (fun d ↦ some (d, k)) hdepth.symm
        | succ i => exact absurd hmem (hfree names (List.mem_cons_self ..))
    | none =>
      have hmem : name ∉ names := List.idxOf?_eq_none_iff.1 hidx
      simp only [ih]
      constructor
      · rintro ⟨i, names', hdepth, hget, hk, hfree⟩
        refine ⟨i + 1, names', by omega, hget, hk, ?_⟩
        rw [List.take_succ_cons, List.forall_mem_cons]
        exact ⟨hmem, hfree⟩
      · rintro ⟨i, names', hdepth, hget, hk, hfree⟩
        cases i with
        | zero =>
          cases hget
          rw [hidx] at hk
          cases hk
        | succ i =>
          rw [List.take_succ_cons, List.forall_mem_cons] at hfree
          exact ⟨i, names', by omega, hget, hk, hfree.2⟩

end Binders

variable {lists : List (List String)} {name : String}

theorem isFree_iff : IsFree lists name ↔ Binders.find? lists.reverse name = none := by
  rw [Binders.find?, Binders.findFrom_eq_none_iff]
  simp only [List.mem_reverse]
  rfl

theorem BoundAt.lt {j k : Nat} (h : BoundAt lists name j k) : j < lists.length := by
  obtain ⟨⟨names, hnames, -⟩, -⟩ := h
  exact (List.getElem?_eq_some_iff.1 hnames).1

theorem BoundAt.find? {j k : Nat} (h : BoundAt lists name j k) :
    Binders.find? lists.reverse name = some (lists.length - 1 - j, k) := by
  have hj := h.lt
  obtain ⟨⟨names, hnames, hk⟩, hinner⟩ := h
  rw [Binders.find?, Binders.findFrom_eq_some_iff]
  refine ⟨lists.length - 1 - j, names, by omega, ?_, idxOf?_eq_some_iff.2 hk, ?_⟩
  · rw [List.getElem?_reverse (by omega), ← hnames]
    congr 1
    omega
  · rw [List.take_reverse, show lists.length - (lists.length - 1 - j) = j + 1 by omega]
    simpa using hinner

theorem exists_boundAt {d k : Nat} (h : Binders.find? lists.reverse name = some (d, k)) :
    ∃ j, BoundAt lists name j k ∧ d = lists.length - 1 - j := by
  rw [Binders.find?, Binders.findFrom_eq_some_iff] at h
  obtain ⟨i, names, hd, hnames, hk, hfree⟩ := h
  rw [Nat.zero_add] at hd
  subst hd
  have hi := (List.getElem?_eq_some_iff.1 hnames).1
  rw [List.length_reverse] at hi
  rw [List.getElem?_reverse hi] at hnames
  refine ⟨lists.length - 1 - d, ⟨⟨names, hnames, idxOf?_eq_some_iff.1 hk⟩, ?_⟩, by omega⟩
  rw [List.take_reverse] at hfree
  rw [show lists.length - 1 - d + 1 = lists.length - d by omega]
  simpa using hfree

/-- The reference to a bound name finds the argument for the parameter that binds it: that in the
frame of the call of the binding function, at the parameter's position. -/
theorem lookup_of_boundAt {j k : Nat} (h : BoundAt lists name j k) {frames : List Frame}
    (hframes : frames.map List.length = lists.map List.length) (stack : Binders.Stack) :
    ∃ frame v, frames[j]? = some frame ∧ frame[k]? = some v ∧
      { stack with frames := frames.reverse }.lookup (lists.length - 1 - j : Nat) k = .ok v := by
  have hj := h.lt
  obtain ⟨⟨names, hnames, hk, -⟩, -⟩ := h
  have hlength : frames.length = lists.length := by
    simpa using congrArg List.length hframes
  obtain ⟨frame, hframe⟩ : ∃ frame, frames[j]? = some frame :=
    ⟨frames[j], List.getElem?_eq_getElem (by omega)⟩
  have hsize : frame.length = names.length := by
    have := congrArg (·[j]?) hframes
    simpa [hframe, hnames] using this
  obtain ⟨v, hv⟩ : ∃ v, frame[k]? = some v := by
    have := (List.getElem?_eq_some_iff.1 hk).1
    exact ⟨frame[k], List.getElem?_eq_getElem (by omega)⟩
  refine ⟨frame, v, hframe, hv, ?_⟩
  have hreverse : frames.reverse[lists.length - 1 - j]? = some frame := by
    rw [List.getElem?_reverse (by omega), ← hframe]
    congr 1
    omega
  exact Binders.Stack.lookup_eq_ok hreverse hv

/-! ## Resolving -/

namespace Tree

theorem eq_map_of_zip {f : Tree → Tree} {ts us : List Tree} (hlength : us.length = ts.length)
    (h : ∀ p ∈ ts.zip us, p.2 = f p.1) : us = ts.map f := by
  induction ts generalizing us with
  | nil => simpa using hlength
  | cons t ts ih =>
    cases us with
    | nil => simp at hlength
    | cons u us =>
      rw [List.zip_cons_cons, List.forall_mem_cons] at h
      rw [List.map_cons, ← h.1, ← ih (by simpa using hlength) h.2]

theorem forall_mem_zip_map {f : Tree → Tree} {p : Tree → Tree → Prop} {ts : List Tree}
    (h : ∀ t ∈ ts, p t (f t)) : ∀ q ∈ ts.zip (ts.map f), p q.1 q.2 := by
  induction ts with
  | nil => simp
  | cons t ts ih =>
    rw [List.forall_mem_cons] at h
    rw [List.map_cons, List.zip_cons_cons, List.forall_mem_cons]
    exact ⟨h.1, ih h.2⟩

theorem signed_of_ne {op : UnaryOperator} {t : Tree}
    (h : ∀ x, t = .number x → op ≠ .minus ∧ op ≠ .plus) : signed op t = .unary op t := by
  unfold signed
  split
  · exact absurd rfl (h _ rfl).1
  · exact absurd rfl (h _ rfl).2
  · rfl

/-- Lexical scoping leaves no choice: it leads to what `resolveIn` gives. -/
theorem Resolves.eq {lists : List (List String)} {t c : Tree} (h : Resolves lists t c) :
    c = t.resolveIn lists.reverse := by
  induction h with
  | bound h => rw [resolveIn, h.find?]
  | free h => rw [resolveIn, isFree_iff.1 h]
  | minus _ ih => rw [resolveIn, ← ih, signed]
  | plus _ ih => rw [resolveIn, ← ih, signed]
  | unary hop _ ih => rw [resolveIn, ← ih, signed_of_ne hop]
  | binary _ _ iht ihu => rw [resolveIn, ← iht, ← ihu]
  | callBound h hlength _ ih =>
    rw [resolveIn, h.find?, resolveAll_eq_map, eq_map_of_zip hlength ih]
  | callFree h hlength _ ih =>
    rw [resolveIn, isFree_iff.1 h, resolveAll_eq_map, eq_map_of_zip hlength ih]
  | apply _ hlength _ iht ih =>
    rw [resolveIn, ← iht, resolveAll_eq_map, eq_map_of_zip hlength ih]
  | array hlength _ ih => rw [resolveIn, resolveAll_eq_map, eq_map_of_zip hlength ih]
  | lambda _ ih => rw [resolveIn, ih, List.reverse_concat]
  | branch _ _ ihc ihy => rw [resolveIn, ← ihc, ← ihy, resolveElse]
  | branchElse _ _ _ ihc ihy ihn => rw [resolveIn, ← ihc, ← ihy, resolveElse, ← ihn]
  | select _ hlength _ iht ih =>
    rw [resolveIn, ← iht, resolveAll_eq_map, eq_map_of_zip hlength ih]
  | define _ ih => rw [resolveIn, ih, List.reverse_concat]
  | _ => rfl

theorem resolves_signed {lists : List (List String)} {op : UnaryOperator} {t t' : Tree}
    (h : Resolves lists t t') : Resolves lists (.unary op t) (signed op t') := by
  unfold signed
  split
  · exact .minus h
  · exact .plus h
  · rename_i hminus hplus
    exact .unary (fun x hx ↦ ⟨fun ho ↦ hminus x ho hx, fun ho ↦ hplus x ho hx⟩) h

/-- Resolving the parameters of a tree follows the rules of lexical scoping. -/
theorem resolves_resolveIn (t : Tree) (lists : List (List String)) :
    Resolves lists t (t.resolveIn lists.reverse) := by
  induction t using Tree.induction generalizing lists with
  | ident name =>
    rw [resolveIn]
    split
    · obtain ⟨j, hj, rfl⟩ := exists_boundAt ‹_›
      exact .bound hj
    · exact .free (isFree_iff.2 ‹_›)
  | unary op operand ih => exact resolves_signed (ih lists)
  | binary op left right ihl ihr => exact .binary (ihl lists) (ihr lists)
  | call name args separators ih =>
    have hargs := forall_mem_zip_map fun t ht ↦ ih t ht lists
    rw [resolveIn, resolveAll_eq_map]
    split
    · obtain ⟨j, hj, rfl⟩ := exists_boundAt ‹_›
      exact .callBound hj (List.length_map ..) hargs
    · exact .callFree (isFree_iff.2 ‹_›) (List.length_map ..) hargs
  | apply callee args separators ihc ih =>
    rw [resolveIn, resolveAll_eq_map]
    exact .apply (ihc lists) (List.length_map ..) (forall_mem_zip_map fun t ht ↦ ih t ht lists)
  | array elements ih =>
    rw [resolveIn, resolveAll_eq_map]
    exact .array (List.length_map ..) (forall_mem_zip_map fun t ht ↦ ih t ht lists)
  | lambda names body ih =>
    have := ih (lists ++ [names])
    rw [List.reverse_concat] at this
    exact .lambda this
  | branch condition yes no ihc ihy ihn =>
    cases no with
    | none => exact .branch (ihc lists) (ihy lists)
    | some no => exact .branchElse (ihc lists) (ihy lists) (ihn no rfl lists)
  | select kind test targets iht ih =>
    rw [resolveIn, resolveAll_eq_map]
    exact .select (iht lists) (List.length_map ..) (forall_mem_zip_map fun t ht ↦ ih t ht lists)
  | define name names body ih =>
    have := ih (lists ++ [names])
    rw [List.reverse_concat] at this
    exact .define this
  | null => exact .null
  | number x => exact .number
  | string s => exact .string
  | boolean b => exact .boolean
  | params names => exact .params
  | parameter depth index => exact .parameter
  | value v => exact .value

theorem resolves_iff {lists : List (List String)} {t c : Tree} :
    Resolves lists t c ↔ c = t.resolveIn lists.reverse := by
  constructor
  · exact Resolves.eq
  · rintro rfl
    exact resolves_resolveIn t lists

/-! ## Resolving twice -/

theorem resolveIn_signed {binders : Binders} {op : UnaryOperator} {t : Tree}
    (h : t.resolveIn binders = t) : (signed op t).resolveIn binders = signed op t := by
  unfold signed
  split
  · rfl
  · rfl
  · rename_i hminus hplus
    rw [resolveIn, h]
    exact signed_of_ne fun x hx ↦ ⟨fun ho ↦ hminus x ho hx, fun ho ↦ hplus x ho hx⟩

theorem map_resolveIn_resolveIn {binders : Binders} {ts : List Tree}
    (h : ∀ t ∈ ts, (t.resolveIn binders).resolveIn binders = t.resolveIn binders) :
    (ts.map (resolveIn binders)).map (resolveIn binders) = ts.map (resolveIn binders) := by
  rw [List.map_map]
  exact List.map_congr_left h

/-- What is left to resolve in a resolved expression is nothing. -/
theorem resolveIn_resolveIn {t : Tree} (h : t.IsExpression) (binders : Binders) :
    (t.resolveIn binders).resolveIn binders = t.resolveIn binders := by
  induction t using Tree.induction generalizing binders with
  | ident name =>
    rw [resolveIn]
    split
    · rfl
    · rename_i hname
      rw [resolveIn, hname]
  | unary op operand ih => exact resolveIn_signed (ih h binders)
  | binary op left right ihl ihr =>
    rw [resolveIn, resolveIn, ihl h.1 binders, ihr h.2 binders]
  | call name args separators ih =>
    have hargs := map_resolveIn_resolveIn fun t ht ↦ ih t ht (areExpressions_iff.1 h t ht) binders
    rw [resolveIn, resolveAll_eq_map]
    split
    · rw [resolveIn, resolveAll_eq_map, hargs]
      rfl
    · rename_i hname
      rw [resolveIn, hname, resolveAll_eq_map, hargs]
  | apply callee args separators ihc ih =>
    have hargs := map_resolveIn_resolveIn fun t ht ↦ ih t ht (areExpressions_iff.1 h.2 t ht) binders
    rw [resolveIn, resolveIn, ihc h.1 binders, resolveAll_eq_map, resolveAll_eq_map, hargs]
  | array elements ih =>
    have := map_resolveIn_resolveIn fun t ht ↦ ih t ht (areExpressions_iff.1 h t ht) binders
    rw [resolveIn, resolveIn, resolveAll_eq_map, resolveAll_eq_map, this]
  | lambda names body ih => rw [resolveIn, resolveIn, ih h (names :: binders)]
  | branch condition yes no ihc ihy ihn =>
    rw [resolveIn, resolveIn, ihc h.1 binders, ihy h.2.1 binders]
    cases no with
    | none => rfl
    | some no => rw [resolveElse, resolveElse, ihn no rfl h.2.2 binders]
  | select kind test targets iht ih =>
    have := map_resolveIn_resolveIn fun t ht ↦ ih t ht (areExpressions_iff.1 h.2 t ht) binders
    rw [resolveIn, resolveIn, iht h.1 binders, resolveAll_eq_map, resolveAll_eq_map, this]
  | parameter | value | define => exact h.elim
  | _ => rfl

/-- A resolved statement is not changed by resolving it again. -/
theorem resolve_resolve {t : Tree} (h : t.IsStatement) : t.resolve.resolve = t.resolve := by
  unfold resolve
  induction h with
  | expression ht => exact resolveIn_resolveIn ht []
  | define hbody =>
    rw [resolveIn, resolveIn, resolveIn, resolveIn, resolveIn_resolveIn hbody]
    rfl
  | branch hcondition hyes ih =>
    rw [resolveIn, resolveIn, resolveIn_resolveIn hcondition, ih]
    rfl
  | branchElse hcondition hyes hno ihy ihn =>
    rw [resolveIn, resolveIn, resolveIn_resolveIn hcondition, ihy, resolveElse, resolveElse, ihn]

/-- The trees that the parser returns are resolved as lexical scoping says, also under functions
around them; the references that names become find the arguments for the parameters that bind the
names.  No definitions of named functions are left, no references outside of functions come about,
and resolving once more changes nothing. -/
theorem resolve_isLexical {isBuiltin : String → Bool} {line : Option Int} {tokens : List Token}
    {ts : List (Option Tree)} {t : Tree} (h : parseTokens isBuiltin line tokens = .ok ts)
    (ht : some t ∈ ts) :
    (∀ lists c, Resolves lists t c ↔ c = t.resolveIn lists.reverse) ∧
    (∀ lists name j k, BoundAt lists name j k → ∀ frames : List Frame,
      frames.map List.length = lists.map List.length → ∀ stack : Binders.Stack,
        ∃ frame v, frames[j]? = some frame ∧ frame[k]? = some v ∧
          { stack with frames := frames.reverse }.lookup (lists.length - 1 - j : Nat) k = .ok v) ∧
    (∀ lists name names body, ¬ Occurs lists (.define name names body) t.resolve) ∧
    (∀ depth index, ¬ Occurs [] (.parameter depth index) t.resolve) ∧
    t.resolve.resolve = t.resolve := by
  have hstatement := isStatement_of_parseTokens h ht
  have hscoped : t.resolve.ScopedIn (fun _ ↦ none) [] := scopedIn_resolve hstatement
  refine ⟨fun _ _ ↦ resolves_iff, fun _ _ _ _ hbound _ hframes stack ↦
    lookup_of_boundAt hbound hframes stack, fun _ _ _ _ hoccurs ↦ hscoped.of_occurs hoccurs,
    fun _ _ hoccurs ↦ ?_, resolve_resolve hstatement⟩
  obtain ⟨b, hb, -⟩ := hscoped.of_occurs hoccurs
  simp at hb

/-- In `[X] ~> [Y] ~> X` the name is that of the outer function's parameter. -/
theorem resolve_isLexical_nested :
    ∃ t, parseTokens (fun _ ↦ false) none
        [⟨"[", .paren, 0⟩, ⟨"X", .literal, 1⟩, ⟨"]", .paren, 2⟩, ⟨"~>", .operator, 4⟩,
         ⟨"[", .paren, 7⟩, ⟨"Y", .literal, 8⟩, ⟨"]", .paren, 9⟩, ⟨"~>", .operator, 11⟩,
         ⟨"X", .literal, 14⟩] = .ok [some t] ∧
      Resolves [] t (.lambda ["X"] (.lambda ["Y"] (.parameter 1 0))) ∧
      t.resolve.resolve = t.resolve := by
  have h : parseTokens (fun _ ↦ false) none
      [⟨"[", .paren, 0⟩, ⟨"X", .literal, 1⟩, ⟨"]", .paren, 2⟩, ⟨"~>", .operator, 4⟩,
       ⟨"[", .paren, 7⟩, ⟨"Y", .literal, 8⟩, ⟨"]", .paren, 9⟩, ⟨"~>", .operator, 11⟩,
       ⟨"X", .literal, 14⟩] = .ok [some (.lambda ["X"] (.lambda ["Y"] (.ident "X")))] := by
    cbv
  obtain ⟨hresolves, -, -, -, htwice⟩ := resolve_isLexical h (List.mem_singleton_self _)
  exact ⟨_, h, (hresolves [] _).2 rfl, htwice⟩

end Tree

end LineBasic
