import LineBasic.Proofs.Writes

/-!
# Where runs are led back to

Subroutines return to places that were noted, loops go back to their heads, and labels stand for
lines.  As long as only numbered lines are executed, all these places are on numbered lines; so no
statement of a program leads back to a line that was typed.

* `Session.IsNumbered` — all places that a session keeps are on numbered lines.
* `numbering` — what keeps it so, with where jumps lead.
* `keeps_execute_isNumbered` — the result.
-/

set_option autoImplicit false
namespace LineBasic

/-- All places that a session leads back to are on lines with a number. -/
structure Session.IsNumbered (s : Session) : Prop where
  returns : ∀ site ∈ s.returns, 0 ≤ site.line
  loops : ∀ loop ∈ s.loops, 0 ≤ loop.head.line
  labels : ∀ name line, s.labels.get? name = some line → 0 ≤ line

namespace Session.IsNumbered

variable {s : Session}

theorem withReturns (h : s.IsNumbered) {returns : List Site}
    (hreturns : ∀ site ∈ returns, 0 ≤ site.line) : { s with returns }.IsNumbered :=
  ⟨hreturns, h.loops, h.labels⟩

theorem withLoops (h : s.IsNumbered) {loops : List Loop}
    (hloops : ∀ loop ∈ loops, 0 ≤ loop.head.line) : { s with loops }.IsNumbered :=
  ⟨h.returns, hloops, h.labels⟩

/-- Only what a session leads back to matters. -/
theorem of_eq {s' : Session} (h : s.IsNumbered) (hreturns : s'.returns = s.returns)
    (hloops : s'.loops = s.loops) (hlabels : s'.labels = s.labels) : s'.IsNumbered :=
  ⟨hreturns ▸ h.returns, hloops ▸ h.loops, hlabels ▸ h.labels⟩

end Session.IsNumbered

/-! ## Single actions -/

section
variable {α : Type} {site : Site}

/-- Computations that keep places on numbered lines, and whose values have to do with others. -/
abbrev Numbers (Q : α → α → Prop) (act : Action α) : Prop :=
  Keeps Session.IsNumbered (fun a ↦ ∃ a', Q a a') act

theorem Keeps.numbers {act : Action α} (h : Keeps Session.IsNumbered (fun _ ↦ True) act) :
    Numbers Eq act :=
  ⟨fun s hs ↦ (h.run s hs).mono (fun _ ↦ id) (fun a _ ↦ ⟨a, rfl⟩) fun _ ↦ id⟩

theorem Detached.numbers {act : Action α} (h : Detached act) : Numbers Eq act := by
  refine Keeps.numbers ⟨fun s hs ↦ ?_⟩
  have hkeeps := ((h.aside s.aside).run s rfl).and ((h.labels s.labels).run s rfl)
  exact hkeeps.mono (fun _ ⟨haside, hlabels⟩ ↦
    hs.of_eq (congrArg Aside.returns haside) (congrArg Aside.loops haside) hlabels)
    (fun _ _ ↦ trivial) fun _ _ ↦ trivial

theorem numbers_store_element (base : Nat) (way : List Nat) (index : Nat) (name : String)
    (v : Value) (statement : String) :
    Numbers Eq ((Operand.element base way index name).store v statement) := by
  refine Keeps.numbers ⟨fun s hs ↦ ?_⟩
  rw [Operand.store_element]
  cases s.heap.writeElement base way index v with
  | ok heap => exact .ok trivial ⟨hs.returns, hs.loops, hs.labels⟩
  | error stop => exact .error trivial hs

theorem numbers_inCall {act : Action Value} (c : Closure) (args : Frame) (h : Numbers Eq act) :
    Numbers Eq (Action.inCall c args act) := by
  refine ⟨fun s hs ↦ ?_⟩
  cases hfull : s.binders.isFull with
  | true =>
    rw [inCall_of_isFull hfull]
    exact .error trivial hs
  | false =>
    rw [inCall_of_not_isFull hfull]
    have hinside := h.run { s with binders := s.binders.enter c args }
      ⟨hs.returns, hs.loops, hs.labels⟩
    exact hinside.putBack fun _ hs' ↦ ⟨hs'.returns, hs'.loops, hs'.labels⟩

theorem numbers_randomOf (b : Builtin) (v : Value) : Numbers Eq (b.randomOf v) := by
  refine Keeps.numbers ⟨fun s hs ↦ ?_⟩
  refine ((b.detached_number v).numbers.run s hs).bind (fun x s₁ _ hs₁ ↦ ?_) fun _ ↦ id
  dsimp only
  split
  · exact .ok trivial ⟨hs₁.returns, hs₁.loops, hs₁.labels⟩
  · exact .ok trivial hs₁

/-- Subroutines return to a place that was noted. -/
theorem numbers_comeBackOf :
    Numbers (Operand.Same fun a _ ↦ 0 ≤ a.line) Builtin.comeBackOf := by
  refine ⟨fun s hs ↦ ?_⟩
  cases hreturns : s.returns with
  | nil => exact Builtin.comeBackOf_of_nil hreturns ▸ .error trivial hs
  | cons back outer =>
    obtain ⟨hback, houter⟩ := List.forall_mem_cons.1 (hreturns ▸ hs.returns)
    have hsame : Operand.Same (fun a _ ↦ 0 ≤ a.line) (.jump back) (.jump back) := .jump hback
    exact Builtin.comeBackOf_of_cons hreturns ▸ .ok ⟨_, hsame⟩ (hs.withReturns houter)

/-- A label stands for the line that it stands on. -/
theorem numbers_labelOf (hsite : 0 ≤ site.line) (x : Operand) :
    Numbers (Operand.Same fun a _ ↦ 0 ≤ a.line) (Builtin.labelOf site x) := by
  have hvalue {v : Value} :
      Numbers (Operand.Same fun a _ ↦ 0 ≤ a.line) (pure (.value v) : Action Operand) :=
    .pure ⟨_, .other nofun⟩
  refine .get fun s hs ↦ .ite (fun _ ↦ ?_) fun _ ↦ hvalue
  cases x with
  | reference name =>
    simp only
    cases s.labels.get? name with
    | some line => exact .bind (keeps_fail (Q := fun _ ↦ True) _) fun _ _ ↦ hvalue
    | none =>
      refine .bind (.set ⟨hs.returns, hs.loops, fun name' line hline ↦ ?_⟩) fun _ _ ↦ hvalue
      by_cases hname : name' = name
      · rw [hname, Table.get?_insert_self] at hline
        exact Option.some.inj hline ▸ hsite
      · rw [Table.get?_insert_of_ne _ _ hname] at hline
        exact hs.labels name' line hline
  | _ => exact .bind (keeps_fail (Q := fun _ ↦ True) _) fun _ _ ↦ hvalue

/-- The line that a jump is to is that of a label, or a number that is not negative. -/
theorem numbers_targetLine (b : Builtin) (x : Operand) :
    Numbers (fun n _ ↦ 0 ≤ n) (b.targetLine x) := by
  refine .get fun s hs ↦ ?_
  dsimp only
  split
  · rename_i line hlabel
    refine .pure ⟨0, ?_⟩
    split at hlabel
    · exact hs.labels _ line hlabel
    · cases hlabel
  · refine .bind x.detached_resolve.numbers fun v _ ↦ ?_
    cases v with
    | number n =>
      refine .bind (Detached.ofNumber (Number.truncate n)).numbers fun line _ ↦ ?_
      exact .ite (fun _ ↦ keeps_fail _) fun hline ↦ .pure ⟨0, Int.not_lt.1 hline⟩
    | _ => exact .bind (Action.detached_typed _).numbers fun _ _ ↦ keeps_fail _

theorem heads_of_same {ls ls' : List Loop}
    (h : List.Forall₂ (Loop.Same fun a _ ↦ 0 ≤ a.line) ls ls') :
    ∀ loop ∈ ls, 0 ≤ loop.head.line := by
  induction h with
  | nil => exact List.forall_mem_nil _
  | cons hl _ ih => exact List.forall_mem_cons.2 ⟨hl.head, ih⟩

/-! ## Statements -/

/-- What a statement on a numbered line does, compared with itself. -/
@[reducible]
def numbering (hsite : 0 ≤ site.line) : Comparison site site where
  rel Q act _ := Numbers Q act
  heads a _ := 0 ≤ a.line
  targets a _ := 0 ≤ a.line
  permits _ := true
  pure h := .pure ⟨_, h⟩
  bind hx hf := .bind hx fun a ⟨a', ha⟩ ↦ hf a a' ha
  detached h := h.numbers
  assign name v := (keeps_assign (fun _ _ hs ↦ ⟨hs.returns, hs.loops, hs.labels⟩) name v).numbers
  write _ _ base way index name v := numbers_store_element base way index name v _
  frames _ _ h := .get fun s _ ↦ h s.binders.frames
  inCall c args h := numbers_inCall c args h
  loops _ _ h := .get fun s hs ↦ h s.loops s.loops <|
    List.forall₂_same.2 fun loop hloop ↦ ⟨rfl, rfl, hs.loops loop hloop⟩
  putLoops _ _ h := (Keeps.modify fun _ hs ↦ hs.withLoops (heads_of_same h)).numbers
  head := hsite
  next h := h
  finish := by decide
  line _ b x := numbers_targetLine b x
  goSub _ := (Keeps.modify fun _ hs ↦
    hs.withReturns (List.forall_mem_cons.2 ⟨hsite, hs.returns⟩)).numbers
  comeBack _ := numbers_comeBackOf
  label _ x := numbers_labelOf hsite x
  resolve _ := rfl
  random _ v := numbers_randomOf _ v
  collectData _ values :=
    (keeps_dataOf (fun _ _ hs ↦ ⟨hs.returns, hs.loops, hs.labels⟩) values).numbers
  nextDatum := (keeps_nextDatum fun _ _ hs ↦ ⟨hs.returns, hs.loops, hs.labels⟩).numbers
  restore := (keeps_restoreOf fun _ _ hs ↦ ⟨hs.returns, hs.loops, hs.labels⟩).numbers
  clear := (keeps_clearOf fun _ _ hs ↦ ⟨hs.returns, hs.loops, hs.labels⟩).numbers

theorem enters_numbered (hsite : 0 ≤ site.line) (room : Nat) :
    (numbering hsite).Enters (callWithin site room) (callWithin site room) := by
  induction room with
  | zero => exact fun c args ↦ .get fun s _ ↦ keeps_fail _
  | succ room ih =>
    exact fun c args ↦ Comparison.callBody ih (Tree.callsOnly_of_forall (fun _ ↦ rfl) _) args

theorem keeps_evaluate_isNumbered (hsite : 0 ≤ site.line) (t : Tree) :
    Numbers (Operand.Same fun a _ ↦ 0 ≤ a.line) (evaluate site t) :=
  .get fun s _ ↦ Comparison.gives_eval (enters_numbered hsite s.room)
    (Tree.callsOnly_of_forall (fun _ ↦ rfl) t)

/-- A statement on a numbered line keeps all places on numbered lines, and leads to one. -/
theorem keeps_execute_isNumbered (hsite : 0 ≤ site.line) (t : Tree) :
    Keeps Session.IsNumbered (fun p ↦ 0 ≤ p.2.line) (execute site t) := by
  refine keeps_settled (.bind (keeps_evaluate_isNumbered hsite t) fun x ⟨x', hx⟩ ↦ ?_) site
  cases hx with
  | jump htarget => exact .pure htarget
  | other hother =>
    have hvalue : Keeps Session.IsNumbered (fun p ↦ 0 ≤ p.2.line)
        (do return (← x.resolve, site.next) : Action (Value × Site)) :=
      .bind x.detached_resolve.numbers fun _ _ ↦ .pure hsite
    cases x with
    | jump target => exact absurd rfl (hother target)
    | _ => exact hvalue

end
end LineBasic
