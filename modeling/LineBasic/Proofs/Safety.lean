import LineBasic.Proofs.Evolution

/-!
# How actions end

A statement that was started in some session ends in one that this evolved to.  It may end early
with a fault, or for the few reasons that are not the program's fault, and for these it is known
what brought them about.  No part of a statement attributes a fault to a line.  There is one rule
for each way of building an action.

* `Session.Halts`, `Session.MayStop` — why a statement, or a part of it, may end early.
* `Fault.IsUnplaced` — faults that are attributed to no line.
* `Closes` — how an action ends that was started in a given session.
* `Yields`, `Safe` — an action that ends well wherever it is started in the course of a statement.
-/

set_option autoImplicit false
namespace LineBasic

/-- Why a statement may end early in the session `s` that was started in the session `first`. -/
inductive Session.Halts (first s : Session) : Stop → Prop
  | fault (f : Fault) : Halts first s (.fault f)
  | endOfInput (h : s.console.input = []) : Halts first s .endOfInput
  /-- A handle that was live earlier in the statement leads nowhere now. -/
  | stale {made : Session} {operand : Operand} {stop : Stop}
      (hstop : stop = .staleArray ∨ stop = .staleSubscript) (hmade : first.Evolves made)
      (hsince : made.Evolves s) (hlive : operand.access made.heap = .ok ())
      (hdead : operand.access s.heap = .error stop) : Halts first s stop
  | misfit (h : first.IsUnfit) : Halts first s .misfit

/-- Whether a fault is attributed to no line. -/
def Fault.IsUnplaced (f : Fault) : Prop :=
  f.line = none

/-- Whether a stop is no fault that is attributed to a line. -/
def Stop.IsUnplaced : Stop → Prop
  | .fault f => f.IsUnplaced
  | _ => True

/-- Why a part of a statement may end early.  What lies in the values at hand becomes a fault of the
statement, and all faults are attributed to it in the end only. -/
inductive Session.MayStop (first s : Session) : Stop → Prop
  | halts {stop : Stop} (h : first.Halts s stop) (hplace : stop.IsUnplaced) : MayStop first s stop
  | inherent {stop : Stop} (h : stop.IsInherent) : MayStop first s stop

/-- How an action ends that was started in the session `s`, in the course of a statement that was
started in the session `first`. -/
inductive Closes {α : Type} (first s : Session) (Q : α → Session → Prop) :
    EStateM.Result Stop Session α → Prop
  | ok {a : α} {s' : Session} (hs : s.Evolves s') (ha : Q a s') : Closes first s Q (.ok a s')
  | error {stop : Stop} {s' : Session} (hs : s.Evolves s') (hstop : first.MayStop s' stop) :
      Closes first s Q (.error stop s')

/-- An action that ends well wherever it is started, with values of a kind. -/
structure Yields {α : Type} (first : Session) (Q : α → Session → Prop) (act : Action α) : Prop where
  run : ∀ s, first.Evolves s → Closes first s Q (act s)

/-- An action that ends well wherever it is started. -/
abbrev Safe {α : Type} (first : Session) (act : Action α) : Prop :=
  Yields first (fun _ _ ↦ True) act

section
variable {α β : Type} {first s : Session} {Q : α → Session → Prop} {Q' : β → Session → Prop}

/-! ## Single stops -/

namespace Session.MayStop

theorem fault {f : Fault} (h : f.IsUnplaced) : first.MayStop s (.fault f) :=
  .halts (.fault f) h

theorem endOfInput (h : s.console.input = []) : first.MayStop s .endOfInput :=
  .halts (.endOfInput h) trivial

theorem stale {made : Session} {operand : Operand} {stop : Stop}
    (hstop : stop = .staleArray ∨ stop = .staleSubscript) (hmade : first.Evolves made)
    (hsince : made.Evolves s) (hlive : operand.access made.heap = .ok ())
    (hdead : operand.access s.heap = .error stop) : first.MayStop s stop := by
  refine .halts (.stale hstop hmade hsince hlive hdead) ?_
  obtain rfl | rfl := hstop <;> trivial

theorem misfit (h : first.IsUnfit) : first.MayStop s .misfit :=
  .halts (.misfit h) trivial

/-- What an action may stop with does not depend on the frames in force. -/
theorem framed {stop : Stop} (h : first.MayStop s stop) (binders : Binders.Stack) :
    first.MayStop { s with binders } stop := by
  cases h with
  | inherent h => exact .inherent h
  | halts h hplace =>
    refine .halts ?_ hplace
    cases h with
    | fault f => exact .fault f
    | endOfInput h => exact .endOfInput h
    | stale hstop hmade hsince hlive hdead =>
      exact .stale hstop hmade (hsince.tail (.framed binders)) hlive hdead
    | misfit h => exact .misfit h

end Session.MayStop

/-! ## Names -/

theorem Session.Refuses.isUnplaced {f : Fault} (h : s.Refuses f) : f.IsUnplaced := by
  cases h <;> rfl

/-! ## Single actions -/

namespace Closes

theorem bind {x : Action α} {f : α → Action β} (hs : first.Evolves s)
    (hx : Closes first s Q (x s))
    (hf : ∀ a s', first.Evolves s' → s.Evolves s' → Q a s' → Closes first s' Q' (f a s')) :
    Closes first s Q' ((x >>= f) s) := by
  change Closes first s Q' (EStateM.bind x f s)
  unfold EStateM.bind
  generalize x s = r at hx
  cases hx with
  | @ok a s' hs' ha =>
    have h := hf a s' (hs.trans hs') hs' ha
    simp only
    generalize f a s' = r' at h
    cases h with
    | ok hs'' hb => exact .ok (hs'.trans hs'') hb
    | error hs'' hstop => exact .error (hs'.trans hs'') hstop
  | error hs' hstop => exact .error hs' hstop

theorem mono {Q₂ : α → Session → Prop} {r : EStateM.Result Stop Session α} (h : Closes first s Q r)
    (hQ : ∀ a s', s.Evolves s' → Q a s' → Q₂ a s') : Closes first s Q₂ r := by
  cases h with
  | ok hs ha => exact .ok hs (hQ _ _ hs ha)
  | error hs hstop => exact .error hs hstop

theorem pure {a : α} (ha : Q a s) : Closes first s Q ((pure a : Action α) s) :=
  .ok .refl ha

theorem throw {stop : Stop} (h : first.MayStop s stop) :
    Closes first s Q ((throw stop : Action α) s) :=
  .error .refl h

theorem get {f : Session → Action β} (h : Closes first s Q' (f s s)) :
    Closes first s Q' ((MonadState.get >>= f) s) :=
  h

theorem ofStop {x : Except Stop α} (herror : OnlyFails (first.MayStop s) x)
    (hok : ∀ a, x = .ok a → Q a s) : Closes first s Q (Action.ofStop x s) := by
  cases x with
  | ok a => exact pure (hok a rfl)
  | error stop => exact throw (herror stop rfl)

end Closes

/-! ## Rules -/

namespace Yields

theorem bind {x : Action α} {f : α → Action β} (hx : Safe first x)
    (hf : ∀ a, Yields first Q' (f a)) : Yields first Q' (x >>= f) :=
  ⟨fun s hs ↦ (hx.run s hs).bind hs fun a s' hs' _ _ ↦ (hf a).run s' hs'⟩

theorem pure {P : α → Prop} {a : α} (ha : P a) :
    Yields first (fun a _ ↦ P a) (pure a : Action α) :=
  ⟨fun _ _ ↦ .pure ha⟩

theorem fail {f : Fault} (h : f.IsUnplaced) : Yields first Q (Action.fail f : Action α) :=
  ⟨fun _ _ ↦ .throw (.fault h)⟩

theorem inherent {stop : Stop} (h : stop.IsInherent) : Yields first Q (throw stop : Action α) :=
  ⟨fun _ _ ↦ .throw (.inherent h)⟩

theorem get {f : Session → Action β} (h : ∀ s, first.Evolves s → Yields first Q' (f s)) :
    Yields first Q' (MonadState.get >>= f) :=
  ⟨fun s hs ↦ (h s hs).run s hs⟩

/-- Reading the session, to do something with it right away. -/
theorem of_get {f : Session → Action β}
    (h : ∀ s, first.Evolves s → Closes first s Q' (f s s)) :
    Yields first Q' (MonadState.get >>= f) :=
  ⟨h⟩

theorem ite {c : Prop} [Decidable c] {x y : Action α} (hx : c → Yields first Q x)
    (hy : ¬ c → Yields first Q y) : Yields first Q (if c then x else y) := by
  split
  · exact hx ‹_›
  · exact hy ‹_›

/-- A result that is missing for want of a fitting setting only, with what is done with it. -/
theorem ofFitting {x : Except Stop α} {f : α → Action β}
    (herror : OnlyFails (fun stop ↦ stop = .misfit ∧ first.IsUnfit) x)
    (hok : ∀ a, x = .ok a → Yields first Q' (f a)) : Yields first Q' (Action.ofStop x >>= f) := by
  cases x with
  | ok a => exact hok a rfl
  | error stop =>
    obtain ⟨rfl, hunfit⟩ := herror stop rfl
    exact ⟨fun _ _ ↦ .error .refl (.misfit hunfit)⟩

theorem modify {f : Session → Session} (h : ∀ s : Session, s.Change (f s)) :
    Safe first (modify f : Action Unit) :=
  ⟨fun s _ ↦ .ok (.single (h s)) trivial⟩

theorem ofFault {x : Except Fault α} (h : OnlyFails Fault.IsUnplaced x) :
    Safe first (Action.ofFault x) := by
  cases x with
  | ok a => exact pure trivial
  | error f => exact fail (h f rfl)

theorem ofNumber (x : Except Number.Mishap α) : Safe first (Action.ofNumber x) := by
  cases x with
  | ok a => exact pure trivial
  | error mishap => exact inherent trivial

theorem ofInherent {x : Except Stop α} (h : Inherent x) : Safe first (Action.ofStop x) := by
  cases x with
  | ok a => exact pure trivial
  | error stop => exact inherent (h stop rfl)

/-! ## Loops over lists -/

theorem mapM {γ : Type} {f : γ → Action α} (h : ∀ c, Safe first (f c)) (cs : List γ) :
    Safe first (cs.mapM f) := by
  induction cs with
  | nil =>
    rw [List.mapM_nil]
    exact pure trivial
  | cons c cs ih =>
    rw [List.mapM_cons]
    exact bind (h c) fun _ ↦ bind ih fun _ ↦ pure trivial

theorem foldlM {γ : Type} {f : α → γ → Action α} (h : ∀ a c, Safe first (f a c)) (start : α)
    (cs : List γ) : Safe first (cs.foldlM f start) := by
  induction cs generalizing start with
  | nil => exact pure trivial
  | cons c cs ih =>
    rw [List.foldlM_cons]
    exact bind (h start c) fun a ↦ ih a

theorem filterM {f : α → Action Bool} (h : ∀ a, Safe first (f a)) (as : List α) :
    Safe first (as.filterM f) := by
  have haux : ∀ found, Safe first (as.filterAuxM f found) := by
    induction as with
    | nil => exact fun found ↦ pure trivial
    | cons a as ih =>
      intro found
      rw [List.filterAuxM]
      exact bind (h a) fun _ ↦ ih _
  exact bind (haux []) fun _ ↦ pure trivial

end Yields

/-! ## Actions on sessions -/

namespace Action

theorem safe_describe (v : Value) : Safe first (describe v) :=
  .get fun s _ ↦ .ofInherent (s.heap.inherent_describe v)

theorem safe_typed (v : Value) : Safe first (typed v) :=
  .get fun s _ ↦ .ofInherent (s.heap.inherent_typed v)

theorem safe_elements (place : Nat) : Safe first (elements place) :=
  .get fun _ _ ↦ .pure trivial

theorem safe_newArray (elements : List Value) : Safe first (newArray elements) :=
  ⟨fun _ _ ↦ .ok (.single (.allocated elements.toArray)) trivial⟩

theorem safe_print (text : String) : Safe first (print text) :=
  .modify fun _ ↦ .printed text

theorem safe_readLine : Safe first readLine := by
  refine .of_get fun s _ ↦ ?_
  cases hline : s.console.readLine? with
  | some p => exact .ok (.single (.lineRead hline)) trivial
  | none =>
    refine .error .refl (.endOfInput ?_)
    rw [Console.readLine?] at hline
    split at hline
    · assumption
    · cases hline

theorem safe_lookup (name : String) : Safe first (lookup name) :=
  .get fun s _ ↦ .ofFault ((s.refuses_of_lookup name).mono fun _ ↦ Session.Refuses.isUnplaced)

theorem unplaced_of_define (vars : Variables) (name : String) (v : Value) :
    OnlyFails Fault.IsUnplaced (vars.define name v) :=
  .ite (.error rfl) (.ok _)

theorem onlyFails_assign {s : Session} (hs : first.Evolves s) (name : String) (v : Value) :
    OnlyFails (first.MayStop s) (s.assign name v) := by
  rw [Session.assign]
  refine .bind ?_ fun isFull ↦ .ite (.error (.fault rfl)) (.bind ?_ fun _ ↦ .ok _)
  · refine (Quantity.onlyFails_compute _ _ _ _).mono ?_
    rintro stop ⟨rfl, hsize | hused⟩
    · exact .misfit (hs.isUnfit (.inr hsize))
    · cases hused
  · have hdefine := unplaced_of_define s.vars name v
    cases h : s.vars.define name v with
    | ok vars => exact .ok _
    | error f => exact .error (.fault (hdefine f h))

theorem safe_assign (name : String) (v : Value) : Safe first (assign name v) := by
  refine .of_get fun s hs ↦ ?_
  cases h : s.assign name v with
  | ok s' => exact .ok (.single (.assigned h)) trivial
  | error stop => exact .error .refl (onlyFails_assign hs name v stop h)

/-- Differences with the index base are there where it fits. -/
theorem onlyFails_sub_indexBase {s : Session} (hs : first.Evolves s) (n : Int) :
    OnlyFails (fun stop ↦ stop = .misfit ∧ first.IsUnfit) (Quantity.sub n s.indexBase) := by
  refine (Quantity.onlyFails_compute _ _ _ _).mono ?_
  rintro stop ⟨rfl, hn | hbase⟩
  · cases hn
  · exact ⟨rfl, hs.isUnfit (.inl (Quantity.whole?_eq_none hbase))⟩

/-- What a number selects, counted from the index base: an element that there is, or something else
that is given by no integer if the index base is none. -/
theorem closes_position (hs : first.Evolves s) (n : Int) (size : Nat) :
    Closes first s (fun found s' ↦ s' = s ∧ (∀ k, found = .element k → k < size) ∧
      (found = .inexact → s.indexBase.whole? = none)) (position n size s) := by
  change Closes first s _ ((Action.ofStop (Quantity.sub n s.indexBase) >>= fun q ↦
    (return q.position size : Action Quantity.Position)) s)
  cases hsub : Quantity.sub n s.indexBase with
  | error stop =>
    obtain ⟨rfl, hunfit⟩ := onlyFails_sub_indexBase hs n stop hsub
    exact .error .refl (.misfit hunfit)
  | ok q =>
    refine .ok .refl ⟨rfl, fun k hk ↦ q.lt_of_position hk, fun hinexact ↦ ?_⟩
    refine Classical.byContradiction fun hbase ↦ ?_
    obtain ⟨k, rfl⟩ := Quantity.whole?_of_sub hbase hsub
    rw [Quantity.position_whole] at hinexact
    split at hinexact <;> cases hinexact

end Action
end
end LineBasic
