import LineBasic.Proofs.Evaluation.Operands
import LineBasic.Proofs.Writes

/-!
# Builtins and arrays

Builtins other than those that assign, read or input write to no array.  They change arrays only as
far as the functions do that they call.

The builtins on sequences make new arrays of what they give.  Four of them hand on something that
was there: the ends of a sequence are items of it, a monad gives what it holds, and a fold without
items gives its start.

* `Heap.Allows`, `Builtin.heap_invoke` — what a builtin does to arrays is done by functions.
* `Value.IsNew`, `GivesNew` — values that share no elements with an array from before.
* `Builtin.HandsOn` — the ways to hand on an array.
* `Builtin.isNew_or_handsOn` — there are no others.
-/

set_option autoImplicit false
namespace LineBasic

/-! ## Changes of arrays -/

/-- A way in which heaps may change, in which they may always get new arrays. -/
structure Heap.Allows (R : Heap → Heap → Prop) : Prop where
  grows : ∀ {h h' : Heap}, h.Grows h' → R h h'
  trans : ∀ {h₁ h₂ h₃ : Heap}, R h₁ h₂ → R h₂ h₃ → R h₁ h₃

/-- An action that changes the heap in a way. -/
def ChangesHeap {α : Type} (R : Heap → Heap → Prop) (act : Action α) : Prop :=
  ∀ s, Ends (fun s' ↦ R s.heap s'.heap) (fun _ ↦ True) (fun _ ↦ True) (act s)

section
variable {R : Heap → Heap → Prop}

theorem Heap.allows_size : Allows fun h h' ↦ h.size ≤ h'.size :=
  ⟨Grows.size, Nat.le_trans⟩

theorem Heap.allows_grows : Allows Grows :=
  ⟨id, Grows.trans⟩

namespace ChangesHeap

variable {α β : Type}

theorem of_spares (hR : Heap.Allows R) {act : Action α} (h : ∀ s, Spares s (act s)) :
    ChangesHeap R act :=
  fun s ↦ (h s).mono (fun _ ↦ hR.grows) (fun _ ↦ id) fun _ ↦ id

theorem bind (hR : Heap.Allows R) {x : Action α} {f : α → Action β} (hx : ChangesHeap R x)
    (hf : ∀ a, (∃ s s', x s = .ok a s') → ChangesHeap R (f a)) : ChangesHeap R (x >>= f) := by
  intro s
  have hfirst := hx s
  cases hxs : x s with
  | ok a s₁ =>
    have hs₁ := (hxs ▸ hfirst).of_ok.2
    rw [bind_run_of_ok hxs]
    exact (hf a ⟨s, s₁, hxs⟩ s₁).mono (fun _ ↦ hR.trans hs₁) (fun _ ↦ id) fun _ ↦ id
  | error e s₁ =>
    rw [bind_run_eq_error.2 (.inl hxs)]
    exact .error trivial (hxs ▸ hfirst).of_error.2

theorem inCall (hR : Heap.Allows R) {act : Action α} (c : Closure) (args : Frame)
    (h : ChangesHeap R act) : ChangesHeap R (Action.inCall c args act) := by
  intro s
  cases hfull : s.binders.isFull with
  | true =>
    rw [inCall_of_isFull hfull]
    exact .error trivial (hR.grows (.refl _))
  | false =>
    rw [inCall_of_not_isFull hfull]
    exact (h { s with binders := s.binders.enter c args }).putBack fun _ h ↦ h

end ChangesHeap

/-- Computations without builtins that write change the heap in any way that functions do. -/
@[reducible]
def changing (site : Site) (hR : Heap.Allows R) : Trait site :=
  .ofSpares site (fun b ↦ !b.writes) (ChangesHeap R) (.of_spares hR) (.bind hR)
    (fun hwrites hpermits ↦ by simp [hwrites] at hpermits) (.inCall hR)

/-- A builtin that does not write does to the arrays what the functions do that it calls. -/
theorem Builtin.heap_invoke (hR : Heap.Allows R) {b : Builtin} (hb : b.writes = false)
    {enter : Closure → List Value → Action Value} (henter : ∀ c args, ChangesHeap R (enter c args))
    (site : Site) (separators : List Separator) (operands : List Operand) :
    ChangesHeap R (b.invoke enter site separators operands) :=
  Trait.holds_invoke (P := changing site hR) henter (congrArg Bool.not hb) separators operands

end

/-! ## New arrays -/

/-- A value that is not an array of a session. -/
def Value.IsNew (s : Session) (v : Value) : Prop :=
  ∀ place, v = .array place → s.heap.size ≤ place

/-- An action with values that are no arrays from before. -/
def GivesNew (act : Action Value) : Prop :=
  ∀ s v s', act s = .ok v s' → v.IsNew s

/-- An action after which there are no fewer arrays. -/
abbrev Lengthens {α : Type} (act : Action α) : Prop :=
  ChangesHeap (fun h h' ↦ h.size ≤ h'.size) act

/-- Lengthening as a trait; the site is of no importance. -/
@[reducible]
def lengthening : Trait ⟨typedLine, 0⟩ :=
  changing _ Heap.allows_size

theorem Detached.lengthens {α : Type} {act : Action α} (h : Detached act) : Lengthens act :=
  .of_spares Heap.allows_size h.grows

namespace GivesNew

variable {α : Type}

theorem pure {v : Value} (h : ∀ place, v ≠ .array place) : GivesNew (pure v) := by
  intro s w s' hw place hplace
  cases hw
  exact absurd hplace (h place)

theorem fail (f : Fault) : GivesNew (Action.fail f) := by
  intro s v s' h
  cases h

theorem newArray (vs : List Value) : GivesNew (Action.newArray vs) := by
  intro s v s' hv place hplace
  cases hv
  cases hplace
  exact Nat.le_refl _

theorem bind {x : Action α} {f : α → Action Value} (hx : Lengthens x)
    (hf : ∀ a, GivesNew (f a)) : GivesNew (x >>= f) := by
  intro s v s' h place hplace
  obtain ⟨a, s₁, ha, hv⟩ := bind_run_eq_ok.1 h
  exact Nat.le_trans (ha ▸ hx s).of_ok.2 (hf a s₁ v s' hv place hplace)

end GivesNew

namespace Builtin

section
variable (b : Builtin) (v w : Value)

theorem givesNew_typed (f : String → Fault) : GivesNew (do Action.fail (f (← Action.typed v))) :=
  .bind (Action.detached_typed v).lengthens fun _ ↦ .fail _

theorem givesNew_consOf : GivesNew (consOf v w) := by
  unfold consOf
  split
  · exact .pure nofun
  · exact .bind (Action.detached_elements _).lengthens fun _ ↦ .newArray _
  · exact givesNew_typed _ _

theorem givesNew_snocOf : GivesNew (snocOf v w) := by
  unfold snocOf
  split
  · exact .pure nofun
  · exact .bind (Action.detached_elements _).lengthens fun _ ↦ .newArray _
  · exact givesNew_typed _ _

theorem givesNew_concatOf : GivesNew (concatOf v w) := by
  unfold concatOf
  split
  · exact .pure nofun
  · exact .bind (Action.detached_elements _).lengthens fun _ ↦
      .bind (Action.detached_elements _).lengthens fun _ ↦ .newArray _
  · exact .bind (Action.detached_typed _).lengthens fun _ ↦ givesNew_typed _ _

theorem givesNew_cutOf (cut : {α : Type} → List α → List α) : GivesNew (b.cutOf cut v) := by
  unfold cutOf
  split
  · exact .pure nofun
  · exact .bind (b.detached_items v).lengthens fun _ ↦ .newArray _

theorem givesNew_listMonadOf : GivesNew (b.listMonadOf v) := by
  unfold listMonadOf
  split
  · exact .bind (b.detached_items _).lengthens fun _ ↦ .pure nofun
  · exact .bind (b.detached_items _).lengthens fun _ ↦ .pure nofun
  · exact .pure nofun

variable {enter : Closure → List Value → Action Value} (henter : ∀ c args, Lengthens (enter c args))

include henter

theorem givesNew_mapOf (f list : Value) : GivesNew (b.mapOf enter f list) := by
  refine .bind (b.detached_function f).lengthens fun f ↦ ?_
  refine .bind (b.detached_items list).lengthens fun items ↦ ?_
  refine .bind ?_ fun _ ↦ .newArray _
  exact Trait.holds_mapM (P := lengthening) (fun v ↦ Trait.holds_call henter f [v]) items

theorem givesNew_filterOf (f list : Value) : GivesNew (b.filterOf enter f list) := by
  refine .bind (b.detached_function f).lengthens fun f ↦ ?_
  refine .bind (b.detached_items list).lengthens fun items ↦ ?_
  refine .bind ?_ fun _ ↦ .newArray _
  exact Trait.holds_filterM (P := lengthening) (fun v ↦ lengthening.bind
    (Trait.holds_call henter f [v]) fun _ _ ↦ lengthening.pure _) items

end

/-! ## Arrays that are handed on -/

/-- The ways for a builtin to give an array that was there before: it is an item of a sequence, held
by a monad, the start of a fold, or the result of a function. -/
inductive HandsOn (enter : Closure → List Value → Action Value) (s : Session) (place : Nat) :
    Builtin → List Operand → Prop
  | item {b : Builtin} {x : Operand} {v : Value} {items : List Value} (hb : b = .head ∨ b = .last)
      (hx : x.resolve s = .ok v s) (hitems : b.items v s = .ok items s)
      (h : .array place ∈ items) : HandsOn enter s place b [x]
  | held {x : Operand} (hx : x.resolve s = .ok (.memoMonad (.array place)) s) :
      HandsOn enter s place .join [x]
  | start {f start list : Operand} (h : start.resolve s = .ok (.array place) s) :
      HandsOn enter s place .fold [f, start, list]
  | result {f start list : Operand} {c : Closure} {args : List Value} {s₁ s₂ : Session}
      (h : enter c args s₁ = .ok (.array place) s₂) : HandsOn enter s place .fold [f, start, list]

/-- The builtins that make and take apart sequences, and those that loop over them. -/
def isOnSequences : Builtin → Bool
  | .cons | .snoc | .concat | .head | .tail | .init | .last | .map | .fold | .filter | .listOf
  | .join | .loopOver | .next => true
  | _ => false

section
variable {b : Builtin} {v w : Value} {s s' : Session}

theorem eq_of_items {items : List Value} (h : b.items v s = .ok items s') : s' = s := by
  cases v with
  | array | generator | listMonad =>
    cases h
    rfl
  | _ =>
    obtain ⟨_, _, -, h⟩ := bind_run_eq_ok.1 h
    cases h

theorem eq_some_of_someEnd {found : Option Value} (h : b.someEnd found s = .ok v s') :
    found = some v := by
  cases found with
  | none => cases h
  | some w =>
    cases h
    rfl

/-- The end of a sequence is an item of it, or a text. -/
theorem mem_of_endOf {find : {α : Type} → List α → Option α} {place : Nat}
    (hfind : ∀ {as : List Value} {a : Value}, find as = some a → a ∈ as)
    (h : b.endOf find v s = .ok (.array place) s') :
    ∃ items, b.items v s = .ok items s ∧ .array place ∈ items := by
  unfold endOf at h
  split at h
  · obtain ⟨c, -, htext⟩ := Option.map_eq_some_iff.1 (eq_some_of_someEnd h)
    cases htext
  · obtain ⟨items, s₁, hitems, hend⟩ := bind_run_eq_ok.1 h
    obtain rfl := eq_of_items hitems
    exact ⟨items, hitems, hfind (eq_some_of_someEnd hend)⟩

theorem isNew_or_held {place : Nat} (h : joinOf v s = .ok (.array place) s') :
    s.heap.size ≤ place ∨ v = .memoMonad (.array place) := by
  cases v with
  | memoMonad held =>
    cases h
    exact .inr rfl
  | listMonad elements => exact .inl (GivesNew.newArray _ s _ s' h place rfl)
  | composed cs => exact .inl (GivesNew.newArray _ s _ s' h place rfl)
  | _ => exact .inl (givesNew_typed _ _ s _ s' h place rfl)

/-- A call gives its first argument on, or what a function gives. -/
theorem result_of_call {enter : Closure → List Value → Action Value} {f : Callable}
    {args : List Value} (h : f.call enter args s = .ok v s') :
    v = args.headD .null ∨ ∃ c args' s₁ s₂, enter c args' s₁ = .ok v s₂ := by
  cases f with
  | single c => exact .inr ⟨c, args, s, s', h⟩
  | chain cs =>
    exact of_foldlM_run (p := fun v ↦ v = args.headD .null ∨ ∃ c args' s₁ s₂, enter c args' s₁ = .ok v s₂)
      h (.inl rfl) fun v _ c _ s₁ v' s₂ hv' ↦ .inr ⟨c, [v], s₁, s₂, hv'⟩

theorem result_of_foldOf {enter : Closure → List Value → Action Value} {f start list : Value}
    (h : b.foldOf enter f start list s = .ok v s') :
    v = start ∨ ∃ c args s₁ s₂, enter c args s₁ = .ok v s₂ := by
  obtain ⟨f, s₁, -, h⟩ := bind_run_eq_ok.1 h
  obtain ⟨items, s₂, -, h⟩ := bind_run_eq_ok.1 h
  refine of_foldlM_run (p := fun v ↦ v = start ∨ ∃ c args s₁ s₂, enter c args s₁ = .ok v s₂)
    h (.inl rfl) fun found hfound item _ s₃ v' s₄ hv' ↦ ?_
  obtain rfl | hresult := result_of_call hv'
  · exact hfound
  · exact .inr hresult

end

/-! ## Calls -/

section
variable {b : Builtin} {enter : Closure → List Value → Action Value} {site : Site}
  {separators : List Separator} {operands : List Operand} {s s' : Session} {v : Value}

/-- A builtin on values gets the values of its operands, of which there are as many as it takes. -/
theorem perform?_of_invoke (hraw : b.performRaw? site operands = none)
    (h : b.invoke enter site separators operands s = .ok (.value v) s') :
    ∃ vs act, List.Forall₂ (fun x w ↦ x.resolve s = .ok w s) operands vs ∧
      b.accepts vs.length = true ∧ b.perform? enter site separators vs = some act ∧
      act s = .ok v s' := by
  unfold invoke at h
  rw [hraw] at h
  cases haccepts : b.accepts operands.length with
  | false =>
    rw [haccepts] at h
    cases h
  | true =>
    rw [haccepts] at h
    obtain ⟨vs, s₁, hvs, hrest⟩ := bind_run_eq_ok.1 h
    obtain ⟨rfl, hlength⟩ := Operand.of_resolveAll hvs
    cases hact : b.perform? enter site separators vs with
    | none =>
      rw [hact] at hrest
      cases hrest
    | some act =>
      rw [hact] at hrest
      obtain ⟨w, s₂, hw, hend⟩ := bind_run_eq_ok.1 hrest
      cases hend
      exact ⟨vs, act, Operand.forall₂_of_resolveAll hvs, hlength ▸ haccepts, hact, hw⟩

theorem exists_one {α : Type} {as : List α} (harity : b.arity = some 1)
    (haccepts : b.accepts as.length = true) : ∃ a, as = [a] := by
  rw [accepts, harity] at haccepts
  exact List.length_eq_one_iff.1 (beq_iff_eq.1 haccepts)

theorem exists_two {α : Type} {as : List α} (harity : b.arity = some 2)
    (haccepts : b.accepts as.length = true) : ∃ a c, as = [a, c] := by
  rw [accepts, harity] at haccepts
  exact List.length_eq_two.1 (beq_iff_eq.1 haccepts)

theorem exists_three {α : Type} {as : List α} (harity : b.arity = some 3)
    (haccepts : b.accepts as.length = true) : ∃ a c d, as = [a, c, d] := by
  rw [accepts, harity] at haccepts
  exact List.length_eq_three.1 (beq_iff_eq.1 haccepts)

variable (henter : ∀ c args, Lengthens (enter c args)) {place : Nat}

include henter

theorem isNew_or_handsOn_perform? (hb : b.isOnSequences = true) (hraw : b.isRaw = false)
    {vs : List Value}
    {act : Action Value} (hvs : List.Forall₂ (fun x w ↦ x.resolve s = .ok w s) operands vs)
    (haccepts : b.accepts vs.length = true)
    (hact : b.perform? enter site separators vs = some act)
    (h : act s = .ok (.array place) s') :
    s.heap.size ≤ place ∨ HandsOn enter s place b operands := by
  have hnew (hgives : GivesNew act) : s.heap.size ≤ place ∨ HandsOn enter s place b operands :=
    .inl (hgives s _ s' h place rfl)
  cases b with
  | cons | snoc | concat | map | filter =>
    obtain ⟨v, w, rfl⟩ := exists_two rfl haccepts
    cases hact
    first
    | exact hnew (givesNew_consOf v w)
    | exact hnew (givesNew_snocOf v w)
    | exact hnew (givesNew_concatOf v w)
    | exact hnew (givesNew_mapOf _ henter v w)
    | exact hnew (givesNew_filterOf _ henter v w)
  | tail | init =>
    obtain ⟨v, rfl⟩ := exists_one rfl haccepts
    cases hact
    exact hnew (givesNew_cutOf _ v _)
  | listOf =>
    obtain ⟨v, rfl⟩ := exists_one rfl haccepts
    cases hact
    exact hnew (givesNew_listMonadOf _ v)
  | head =>
    obtain ⟨v, rfl⟩ := exists_one rfl haccepts
    cases hact
    cases hvs with
    | cons hx hvs =>
      cases hvs
      obtain ⟨items, hitems, hmem⟩ := mem_of_endOf List.mem_of_head? h
      exact .inr (.item (.inl rfl) hx hitems hmem)
  | last =>
    obtain ⟨v, rfl⟩ := exists_one rfl haccepts
    cases hact
    cases hvs with
    | cons hx hvs =>
      cases hvs
      obtain ⟨items, hitems, hmem⟩ := mem_of_endOf List.mem_of_getLast? h
      exact .inr (.item (.inr rfl) hx hitems hmem)
  | join =>
    obtain ⟨v, rfl⟩ := exists_one rfl haccepts
    cases hact
    cases hvs with
    | cons hx hvs =>
      cases hvs
      obtain hsize | rfl := isNew_or_held h
      · exact .inl hsize
      · exact .inr (.held hx)
  | fold =>
    obtain ⟨f, start, list, rfl⟩ := exists_three rfl haccepts
    cases hact
    cases hvs with
    | cons hf hvs =>
      cases hvs with
      | cons hstart hvs =>
        cases hvs with
        | cons hlist hvs =>
          cases hvs
          obtain rfl | ⟨c, args, s₁, s₂, hcall⟩ := result_of_foldOf h
          · exact .inr (.start hstart)
          · exact .inr (.result hcall)
  | loopOver | next => cases hraw
  | _ => cases hb

/-- What a builtin on sequences gives shares no elements with the arrays that there were, unless it
hands one of them on. -/
theorem isNew_or_handsOn (hb : b.isOnSequences = true)
    (h : b.invoke enter site separators operands s = .ok (.value (.array place)) s') :
    s.heap.size ≤ place ∨ HandsOn enter s place b operands := by
  have hvalue (hraw : b.isRaw = false) (hnone : b.performRaw? site operands = none) :
      s.heap.size ≤ place ∨ HandsOn enter s place b operands := by
    obtain ⟨vs, act, hvs, haccepts, hact, h⟩ := perform?_of_invoke hnone h
    exact isNew_or_handsOn_perform? henter hb hraw hvs haccepts hact h
  cases b with
  | loopOver =>
    cases haccepts : loopOver.accepts operands.length with
    | false =>
      rw [invoke, haccepts] at h
      cases h
    | true =>
      obtain ⟨x, rfl⟩ := exists_one rfl haccepts
      exact (gives_loopOverOf _ _ x s _ s' h).elim
  | next => exact (gives_nextOf _ operands s _ s' h).elim
  | cons | snoc | concat | map | filter | tail | init | listOf | head | last | join | fold =>
    exact hvalue rfl rfl
  | _ => cases hb

end

end Builtin
end LineBasic
