import LineBasic.Proofs.Lockstep.Evaluation
import LineBasic.Proofs.Tree.Scoping

/-!
# Fixing the first parameter is partial application

Calling a function with its first parameter fixed does the same as calling the function with the
value put before the other arguments: the same value, the same effects, the same failure.  Only the
diagnostic of a missing argument counts one argument less.

The bodies of the two functions run in lockstep, with frames in force that differ in the first
argument.  This takes a body without functions in it, which would capture those frames, and without
computed callees, which diagnostics show as they are written.
-/

set_option autoImplicit false
namespace LineBasic

/-- A tree without functions and calls of computed functions. -/
structure Tree.IsFlat (t : Tree) : Prop where
  no_lambda : ∀ lists names body, ¬ Occurs lists (.lambda names body) t
  no_apply : ∀ lists callee args separators, ¬ Occurs lists (.apply callee args separators) t

theorem Tree.IsFlat.part {t u : Tree} (h : t.IsFlat) (hu : u ∈ t.parts) : u.IsFlat where
  no_lambda _ _ _ hlambda := h.no_lambda _ _ _ (hlambda.of_part hu)
  no_apply _ _ _ _ happly := h.no_apply _ _ _ _ (happly.of_part hu)

namespace Closure

/-! ## The ends of calls -/

/-- How the ends of two calls agree, of which the first was given one argument more than the
second, and the second as many as `given`. -/
inductive SameEnd (given : Nat) : EStateM.Result Stop Session Value →
    EStateM.Result Stop Session Value → Prop
  | value (v : Value) (s : Session) : SameEnd given (.ok v s) (.ok v s)
  | stop (e : Stop) (s : Session) : SameEnd given (.error e s) (.error e s)
  | missing {index : Nat} (h : given ≤ index) (s : Session) :
      SameEnd given (.error (.fault (.missingArgument 0 (index + 1) (given + 1))) s)
        (.error (.fault (.missingArgument 0 index given)) s)

/-- The world of two runs of which the second is given one argument less.  Nothing is asked of
values and trees. -/
def oneLess (given : Nat) : World where
  good _ := True
  fits _ _ := True
  stops e e' := e = e' ∨ ∃ index, given ≤ index ∧
    e = .fault (.missingArgument 0 (index + 1) (given + 1)) ∧
    e' = .fault (.missingArgument 0 index given)
  escapes _ := False
  stops_refl _ _ := .inl rfl
  number _ := trivial
  string _ := trivial
  boolean _ := trivial
  null := trivial
  array _ := trivial
  generator _ _ _ := trivial
  listMonad := by simp
  memoMonad := by simp
  composed := by simp
  curry _ _ _ := trivial
  rename _ _ := trivial
  uses _ := True
  builtin _ _ := trivial
  ident _ _ := trivial
  constant _ := trivial
  part _ _ _ := trivial
  value _ := trivial
  lambda _ := trivial
  argument _ _ := trivial
  missing _ _ := .inl rfl

theorem sameEnd_of_agree {given : Nat} {s : Session} {P : Value → Prop}
    {r r' : EStateM.Result Stop Session Value}
    (h : Agree (oneLess given) s.binders.frames P s r r') : SameEnd given r r' := by
  have hkept : ∀ {s' t}, Kept (oneLess given) s.binders.frames s s' t → t = s' := by
    rintro s' t ⟨hbinders, rfl, -⟩
    rw [← hbinders]
    rfl
  cases h with
  | ok _ h =>
    rw [hkept h]
    exact .value _ _
  | error he h =>
    rw [hkept h]
    obtain rfl | ⟨index, hindex, rfl, rfl⟩ := he
    · exact .stop _ _
    · exact .missing hindex _
  | escape he => exact he.elim

end Closure

/-! ## Bodies -/

section
variable {enter enter' : Closure → List Value → Action Value} {site : Site}

theorem eval_parameter (depth index : Nat) (s : Session) :
    eval enter site (.parameter depth index) s = match s.binders.lookup depth index with
      | .ok v => .ok (.value v) s
      | .error f => .error (.fault f) s := by
  rw [eval]
  change EStateM.bind (Action.ofFault (s.binders.lookup depth index)) _ s = _
  cases s.binders.lookup depth index <;> rfl

/-- References to parameters, with one argument less in the innermost frame. -/
theorem alike_substitute_parameter (v : Value) (args : Frame) (outer : List Frame)
    (depth index : Nat) :
    Alike (Closure.oneLess args.length) ((v :: args) :: outer) (args :: outer) enter enter' site
      (.parameter depth index) (Tree.substitute v 0 (.parameter depth index)) := by
  refine ⟨fun s hF hs ↦ ?_⟩
  cases depth with
  | succ depth =>
    have hsame : (s.withFrames (args :: outer)).binders.lookup (depth + 1 : Nat) index =
        s.binders.lookup (depth + 1 : Nat) index :=
      Binders.Stack.lookup_congr (by rw [hF]; rfl) (by rw [hF]; rfl)
    have hstays : Tree.substitute v 0 (.parameter (depth + 1) index) =
        .parameter (depth + 1) index := rfl
    rw [hstays, eval_parameter, eval_parameter, hsame]
    cases s.binders.lookup (depth + 1 : Nat) index with
    | ok w => exact .ok trivial (.refl hs)
    | error f => exact .error (.inl rfl) (.refl hs)
  | zero =>
    have hframe : s.binders.frames[0]? = some (v :: args) := by rw [hF]; rfl
    have hframe' : (s.withFrames (args :: outer)).binders.frames[0]? = some args := rfl
    cases index with
    | zero =>
      rw [Tree.substitute, if_pos rfl, eval_parameter,
        Binders.Stack.lookup_eq_ok hframe List.getElem?_cons_zero]
      exact .ok trivial (.refl hs)
    | succ index =>
      rw [Tree.substitute, if_pos rfl, eval_parameter, eval_parameter]
      cases harg : args[index]? with
      | some w =>
        rw [Binders.Stack.lookup_eq_ok hframe (List.getElem?_cons_succ.trans harg),
          Binders.Stack.lookup_eq_ok hframe' harg]
        exact .ok trivial (.refl hs)
      | none =>
        rw [Binders.Stack.lookup_of_no_argument hframe (List.getElem?_cons_succ.trans harg),
          Binders.Stack.lookup_of_no_argument hframe' harg]
        exact .error (.inr ⟨index, List.getElem?_eq_none_iff.1 harg, rfl, rfl⟩) (.refl hs)

/-- A flat body, with the value in the place of the first parameter and one argument less. -/
theorem alike_substitute {t : Tree} (ht : t.IsFlat) (v : Value) (args : Frame) (outer : List Frame)
    (henter : Enters (Closure.oneLess args.length) ((v :: args) :: outer) (args :: outer)
      enter enter') :
    Alike (Closure.oneLess args.length) ((v :: args) :: outer) (args :: outer) enter enter' site
      t (t.substitute v 0) := by
  induction t using Tree.parts_induction with
  | step t ih =>
  have hparts : ∀ u ∈ t.parts, Alike (Closure.oneLess args.length) ((v :: args) :: outer)
      (args :: outer) enter enter' site u (u.substitute v 0) := fun u hu ↦ ih u hu (ht.part hu)
  cases t with
  | null => exact .null
  | number x => exact .number x
  | string s => exact .string s
  | boolean b => exact .boolean b
  | ident name => exact .ident fun _ _ ↦ trivial
  | unary op operand => exact .unary henter (hparts operand (by simp [Tree.parts]))
  | binary op left right =>
    exact .binary henter (hparts left (by simp [Tree.parts])) (hparts right (by simp [Tree.parts]))
  | call name args separators =>
    rw [Tree.substitute, Tree.substituteAll_eq_map]
    exact .call henter hparts
  | apply callee args separators => exact absurd (.here _) (ht.no_apply [] callee args separators)
  | array elements =>
    rw [Tree.substitute, Tree.substituteAll_eq_map]
    exact .array hparts
  | params names => exact .params names
  | lambda names body => exact absurd (.here _) (ht.no_lambda [] names body)
  | parameter depth index => exact alike_substitute_parameter v args outer depth index
  | branch condition yes no =>
    rw [Tree.substitute, Tree.substituteElse_eq_map]
    exact .branch (hparts condition (by simp [Tree.parts])) (hparts yes (by simp [Tree.parts]))
      fun t ht ↦ hparts t (by simp [Tree.parts, Option.mem_def.1 ht])
  | select kind test targets =>
    obtain ⟨htest, htargets⟩ := List.forall_mem_cons.1 hparts
    rw [Tree.substitute, Tree.substituteAll_eq_map]
    exact .select henter htest htargets
  | define name names body => exact .define name names body
  | value w => exact .value trivial

end

/-! ## Calls -/

namespace Closure

/-- Fixing the first parameter of a function with a flat body is partial application.  The site,
the depth that is left for calls, the other arguments and the session may be any. -/
theorem curry_isPartialApplication {c : Closure} (harity : 0 < c.arity) (hflat : c.body.IsFlat)
    (v : Value) : ∃ c', Builtin.curryOf (.closure c) v = pure (.closure c') ∧
      c'.arity + 1 = c.arity ∧
      ∀ site room args s, SameEnd args.length (callWithin site room c (v :: args) s)
        (callWithin site room c' args s) := by
  obtain ⟨arity, body, captured, name⟩ := c
  cases arity with
  | zero => exact absurd harity (Nat.lt_irrefl 0)
  | succ n =>
    refine ⟨.mk n (body.substitute v 0) captured name, rfl, rfl, fun site room args s ↦ ?_⟩
    have hcall : Lockstep (oneLess args.length) s.binders.frames s.binders.frames (fun _ ↦ True)
        (callWithin site room (.mk (n + 1) body captured name) (v :: args))
        (callWithin site room (.mk n (body.substitute v 0) captured name) args) := by
      cases room with
      | zero => exact .get fun _ _ _ ↦ .fail trivial
      | succ room =>
        have henter : Enters (oneLess args.length) ((v :: args) :: captured) (args :: captured)
            (callWithin site room) (callWithin site room) :=
          lockstep_callWithin (fun _ _ _ _ ↦ trivial) site room
        exact lockstep_inCall rfl (.bind (alike_substitute hflat v args captured henter)
          fun _ hx ↦ (Operand.steady_resolve hx).mono fun _ _ ↦ trivial)
    exact sameEnd_of_agree (hcall.run s rfl (s.all_of_forall fun _ ↦ trivial))

/-- Of the concatenation of two texts, the first is fixed. -/
theorem curry_isPartialApplication_plus :
    let c := Closure.mk 2 (.binary .plus (.parameter 0 0) (.parameter 0 1)) [] "JOINED"
    0 < c.arity ∧ c.body.IsFlat ∧
      ∃ c', Builtin.curryOf (.closure c) (.string "A") = pure (.closure c') ∧
        c'.arity + 1 = c.arity ∧
        ∀ site room args s, SameEnd args.length (callWithin site room c (.string "A" :: args) s)
          (callWithin site room c' args s) := by
  intro c
  have hflat : c.body.IsFlat := by
    constructor
    · intro lists names body h
      cases h with
      | left h => cases h
      | right h => cases h
    · intro lists callee args separators h
      cases h with
      | left h => cases h
      | right h => cases h
  exact ⟨by decide, hflat, curry_isPartialApplication (by decide) hflat (.string "A")⟩

end Closure
end LineBasic
