import LineBasic.Proofs.Comparison
import LineBasic.Proofs.Tree.Builtins

/-!
# Comparing evaluations

Trees are evaluated in ways that correspond, if functions are entered in ways that do and the
builtins that are called on the way are permitted.  The bodies of functions that a tree defines do
not count: they are evaluated only when the functions are called.

* `Comparison.gives_eval` — trees.
* `Comparison.callBody` — calls of functions.
-/

set_option autoImplicit false
namespace LineBasic

/-! ## Subscripts and selections -/

theorem Operand.detached_offset? (name : String) (size : Nat) (arg : Value) :
    Detached (offset? name size arg) := by
  unfold offset?
  split
  · refine .bind (.ofNumber _) fun n ↦ .bind (Action.detached_position n size) fun place ↦ ?_
    cases place with
    | element k => exact .pure _
    | inexact => exact .pure _
    | outside => exact .fail _
  · exact .bind (Action.detached_typed _) fun _ ↦ .fail _

theorem detached_calleeName (callee : Operand) (t : Tree) : Detached (calleeName callee t) := by
  unfold calleeName
  split
  · exact .pure _
  · exact .pure _
  · exact .get (fun _ ↦ rfl) fun _ ↦ .ofStop _

theorem detached_selected (kind : JumpKind) (count : Nat) (v : Value) :
    Detached (selected kind count v) := by
  unfold selected
  split
  · refine .bind (.ofNumber _) fun n ↦ .bind (Action.detached_position n count) fun place ↦ ?_
    cases place with
    | element k => exact .pure _
    | inexact => exact .throw _
    | outside => exact .pure _
  · exact .bind (Action.detached_typed _) fun _ ↦ .fail _

namespace Comparison

variable {site site' : Site} {C : Comparison site site'}

theorem descend (base : Nat) (key : String) (count place : Nat) (way : List Nat) (arg : Value)
    (args : List Value) :
    C.Gives (Operand.descend base key count place way arg args)
      (Operand.descend base key count place way arg args) := by
  induction args generalizing place way arg with
  | nil =>
    refine get (fun _ ↦ rfl) (fun _ ↦ rfl) fun s ↦
      bind_same (C.detached (Operand.detached_offset? key _ arg)) fun found ↦ ?_
    cases found with
    | some index => exact C.pure (.other nofun)
    | none => exact C.pure (.other nofun)
  | cons next args ih =>
    refine get (fun _ ↦ rfl) (fun _ ↦ rfl) fun s ↦
      bind_same (C.detached (Operand.detached_offset? key _ arg)) fun found ↦ ?_
    cases found with
    | some index =>
      refine get (fun _ ↦ rfl) (fun _ ↦ rfl) fun s ↦ ?_
      cases s.heap.child? place index with
      | some inner => exact ih _ _ _
      | none => exact fail _
    | none => exact throw _

theorem subscripted (base : Nat) (way : List Nat) (key : String) (args : List Value) :
    C.Gives (Operand.subscripted base way key args) (Operand.subscripted base way key args) := by
  cases args with
  | nil => exact fail _
  | cons arg more =>
    exact get (fun _ ↦ rfl) (fun _ ↦ rfl) fun _ ↦
      bind_same (C.detached (.ofStop _)) fun _ ↦ descend _ _ _ _ _ _ _

section
variable {enter enter' : Closure → List Value → Action Value} (henter : C.Enters enter enter')

/-! ## Functions -/

section
include henter

theorem applyValue (v : Value) (args : List Value) (key : String) :
    C.Gives (applyValue enter v args key) (applyValue enter' v args key) := by
  unfold LineBasic.applyValue
  split
  · exact bind_same (call henter _ _) fun _ ↦ value _
  · exact subscripted _ _ _ _
  · split
    · exact bind_same (C.detached (Builtin.detached_of_unwrap? ‹_›)) fun _ ↦ value _
    · exact value _
    · exact bind_same (C.detached (Action.detached_typed _)) fun _ ↦ fail _

theorem applyOperand (callee : Operand) (args : List Value) (key : String) :
    C.Gives (applyOperand enter callee args key) (applyOperand enter' callee args key) := by
  refine bind_same (C.detached callee.detached_resolve) fun v ↦ ?_
  split
  · exact subscripted _ _ _ _
  · exact applyValue henter v args key

theorem callBuiltin {b : Builtin} (hb : C.permits b = true) (separators : List Separator)
    {operands operands' : Action (List Operand)}
    (h : C.rel (List.Forall₂ (Operand.Same C.targets)) operands operands') :
    C.Gives (callBuiltin enter site b separators operands)
      (callBuiltin enter' site' b separators operands') :=
  get (fun _ ↦ rfl) (fun _ ↦ rfl) fun _ ↦ bind_same (C.detached (.ofFault _)) fun _ ↦
    C.bind h fun _ _ hxs ↦ gives_invoke henter hb separators hxs

end

/-! ## Trees -/

section
variable {ts : List Tree}
  (h : ∀ t ∈ ts, C.Gives (LineBasic.eval enter site t) (LineBasic.eval enter' site' t))

include h

theorem evalAll : C.rel (List.Forall₂ (Operand.Same C.targets)) (evalAll enter site ts)
    (evalAll enter' site' ts) := by
  induction ts with
  | nil => exact C.pure .nil
  | cons t ts ih =>
    rw [List.forall_mem_cons] at h
    exact C.bind h.1 fun _ _ hx ↦ C.bind (ih h.2) fun _ _ hxs ↦ C.pure (.cons hx hxs)

theorem evalValues : C.rel Eq (evalValues enter site ts) (evalValues enter' site' ts) := by
  induction ts with
  | nil => exact same _
  | cons t ts ih =>
    rw [List.forall_mem_cons] at h
    exact h.1.resolve fun _ ↦ bind_same (ih h.2) fun _ ↦ same _

theorem evalAt (position : Nat) : C.rel (List.Forall₂ (Operand.Same C.targets))
    (evalAt enter site ts position) (evalAt enter' site' ts position) := by
  induction ts generalizing position with
  | nil => exact C.pure .nil
  | cons t ts ih =>
    rw [List.forall_mem_cons] at h
    cases position with
    | zero => exact C.bind h.1 fun _ _ hx ↦ C.pure (.cons hx .nil)
    | succ position => exact ih h.2 position

end

include henter

/-- Trees that call permitted builtins only are evaluated in ways that correspond. -/
theorem gives_eval {t : Tree} (ht : t.callsOnly C.permits = true) :
    C.Gives (eval enter site t) (eval enter' site' t) := by
  induction t using Tree.parts_induction with
  | step t ih =>
  obtain ⟨hbuiltin, hparts⟩ := Tree.callsOnly_iff.1 ht
  have hparts : ∀ u ∈ t.parts, C.Gives (eval enter site u) (eval enter' site' u) := fun u hu ↦
    ih u hu (hparts u hu)
  cases t with
  | null | number | string | boolean | value => exact value _
  | ident name => exact C.pure (.other nofun)
  | unary op operand =>
    exact callBuiltin henter (hbuiltin _ rfl) _
      (C.bind (hparts operand (by simp [Tree.parts])) fun _ _ hx ↦ C.pure (.cons hx .nil))
  | binary op left right =>
    unfold eval
    cases hb : Builtin.ofOperator? op with
    | none => exact fail _
    | some b =>
      exact callBuiltin henter (hbuiltin b hb) _
        (C.bind (hparts left (by simp [Tree.parts])) fun _ _ hx ↦
          C.bind (hparts right (by simp [Tree.parts])) fun _ _ hy ↦
            C.pure (.cons hx (.cons hy .nil)))
  | call name args separators =>
    unfold eval
    cases hb : Builtin.ofName? name with
    | none => exact bind_same (evalValues hparts) fun _ ↦ applyOperand henter _ _ _
    | some b => exact callBuiltin henter (hbuiltin b hb) _ (evalAll hparts)
  | apply callee args separators =>
    obtain ⟨hcallee, hargs⟩ := List.forall_mem_cons.1 hparts
    exact hcallee.bind (fun _ _ ↦ rfl) fun f ↦
      bind_same (C.detached (detached_calleeName f callee)) fun _ ↦
        bind_same (evalValues hargs) fun _ ↦ applyOperand henter _ _ _
  | array elements =>
    exact bind_same (evalValues hparts) fun _ ↦
      bind_same (C.detached (Action.detached_newArray _)) fun _ ↦ value _
  | params names => exact fail _
  | lambda names body => exact C.frames _ _ fun frames ↦ value (.closure (.mk _ body frames ""))
  | parameter depth index =>
    -- Only the frames are looked at, not the calls.
    let take (frames : List Frame) : Action Operand := do
      return .value (← Action.ofFault (Binders.Stack.lookup ⟨0, frames, []⟩ depth index))
    exact C.frames take take fun _ ↦ bind_same (C.detached (.ofFault _)) fun _ ↦ value _
  | branch condition yes no =>
    refine (hparts condition (by simp [Tree.parts])).resolve fun v ↦
      ite (hparts yes (by simp [Tree.parts])) ?_
    cases no with
    | none => exact value _
    | some no => exact hparts no (by simp [Tree.parts])
  | select kind test targets =>
    obtain ⟨htest, htargets⟩ := List.forall_mem_cons.1 hparts
    refine htest.resolve fun v ↦ bind_same (C.detached (detached_selected kind _ v)) fun found ↦ ?_
    cases found with
    | none => exact value _
    | some position =>
      exact C.bind (evalAt htargets position) fun _ _ hxs ↦
        gives_invoke henter (hbuiltin _ rfl) [] hxs
  | define name names body =>
    exact get (fun _ ↦ rfl) (fun _ ↦ rfl) fun _ ↦
      bind_same (C.detached (.ofStop _)) fun _ ↦ fail _

/-- Functions are called in ways that correspond if their bodies call permitted builtins only. -/
theorem callBody {c : Closure} (hc : c.body.callsOnly C.permits = true) (args : Frame) :
    C.rel Eq (Action.inCall c args do (← eval enter site c.body).resolve)
      (Action.inCall c args do (← eval enter' site' c.body).resolve) :=
  C.inCall c args ((gives_eval henter hc).bind (fun _ _ ↦ rfl) fun x ↦
    C.detached x.detached_resolve)

end
end Comparison
end LineBasic
