import LineBasic.Evaluation
import LineBasic.Proofs.Detached
import LineBasic.Proofs.Keeping

/-!
# Runs abreast

Two computations are compared that start in sessions which are alike in some respect.  As long as
neither stops on its own, they end in the same way: with values that have to do with one another, or
with stops that are alike, and in sessions that are alike again.

Often two sessions are alike if they differ in a part only, and most actions have nothing to do with
that part.

* `Likeness` — what is alike, and how the computations may stop on their own.
* `Beside`, `Abreast` — ends, and computations, that compare.
* `Likeness.AllowsCalls`, `Abreast.inCall` — calls of functions.
* `Facet`, `Facet.Differ`, `Facet.abreast` — sessions that differ in a part.
-/

set_option autoImplicit false
namespace LineBasic

/-- In what two computations are compared. -/
structure Likeness where
  sessions : Session → Session → Prop
  stops : Stop → Stop → Prop
  /-- How the first computation may stop on its own. -/
  leaves : Stop → Prop
  /-- How the second computation may stop on its own. -/
  escapes : Stop → Prop

/-- How the ends of two computations compare. -/
inductive Beside (L : Likeness) {α : Type} (Q : α → α → Prop) :
    EStateM.Result Stop Session α → EStateM.Result Stop Session α → Prop
  | ok {a a' : α} {s s' : Session} (ha : Q a a') (hs : L.sessions s s') :
      Beside L Q (.ok a s) (.ok a' s')
  | error {e e' : Stop} {s s' : Session} (he : L.stops e e') (hs : L.sessions s s') :
      Beside L Q (.error e s) (.error e' s')
  | left {e : Stop} {s : Session} {r : EStateM.Result Stop Session α} (he : L.leaves e) :
      Beside L Q (.error e s) r
  | escaped {r : EStateM.Result Stop Session α} {e : Stop} {s : Session} (he : L.escapes e) :
      Beside L Q r (.error e s)

/-- Two computations that do the same as far as can be compared, with values that have something to
do with one another. -/
structure Abreast (L : Likeness) {α : Type} (Q : α → α → Prop) (act act' : Action α) : Prop where
  run : ∀ s s', L.sessions s s' → Beside L Q (act s) (act' s')

/-- The same comparison, of sessions the first of which has a property. -/
def Likeness.keeping (L : Likeness) (P : Session → Prop) : Likeness :=
  { L with sessions := fun s s' ↦ L.sessions s s' ∧ P s }

section
variable {L : Likeness} {α β : Type} {Q : α → α → Prop} {Q' : β → β → Prop}

/-! ## Ends -/

namespace Beside

variable {r r' : EStateM.Result Stop Session α}

theorem mono {Q₂ : α → α → Prop} (h : Beside L Q r r') (hQ : ∀ a a', Q a a' → Q₂ a a') :
    Beside L Q₂ r r' := by
  cases h with
  | ok ha hs => exact .ok (hQ _ _ ha) hs
  | error he hs => exact .error he hs
  | left he => exact .left he
  | escaped he => exact .escaped he

theorem bind {x x' : Action α} {f f' : α → Action β} {s s' : Session}
    (hx : Beside L Q (x s) (x' s'))
    (hf : ∀ a a' s s', Q a a' → L.sessions s s' → Beside L Q' (f a s) (f' a' s')) :
    Beside L Q' ((x >>= f) s) ((x' >>= f') s') := by
  change Beside L Q' (EStateM.bind x f s) (EStateM.bind x' f' s')
  unfold EStateM.bind
  generalize x s = r, x' s' = r' at hx
  cases hx with
  | ok ha hs => exact hf _ _ _ _ ha hs
  | error he hs => exact .error he hs
  | left he => exact .left he
  | escaped he => exact .escaped he

/-- What holds at the end of the first computation is kept in mind. -/
theorem keeping {P : Session → Prop} {Q₂ : α → Prop} {R : Stop → Prop} (h : Beside L Q r r')
    (hP : Ends P Q₂ R r) : Beside (L.keeping P) Q r r' := by
  cases h with
  | ok ha hs => exact .ok ha ⟨hs, hP.of_ok.2⟩
  | error he hs => exact .error he ⟨hs, hP.of_error.2⟩
  | left he => exact .left he
  | escaped he => exact .escaped he

end Beside

/-! ## Rules -/

namespace Abreast

theorem pure {a a' : α} (h : Q a a') : Abreast L Q (pure a) (pure a') :=
  ⟨fun _ _ hs ↦ .ok h hs⟩

theorem bind {x x' : Action α} {f f' : α → Action β} (hx : Abreast L Q x x')
    (hf : ∀ a a', Q a a' → Abreast L Q' (f a) (f' a')) :
    Abreast L Q' (x >>= f) (x' >>= f') :=
  ⟨fun s s' hs ↦ (hx.run s s' hs).bind fun a a' _ _ ha hs ↦ (hf a a' ha).run _ _ hs⟩

theorem mono {x x' : Action α} {Q₂ : α → α → Prop} (h : Abreast L Q x x')
    (hQ : ∀ a a', Q a a' → Q₂ a a') : Abreast L Q₂ x x' :=
  ⟨fun s s' hs ↦ (h.run s s' hs).mono hQ⟩

theorem throw {e e' : Stop} (h : L.stops e e') : Abreast L Q (MonadExcept.throw e) (MonadExcept.throw e') :=
  ⟨fun _ _ hs ↦ .error h hs⟩

theorem escape {x : Action α} {stop : Stop} (h : L.escapes stop) : Abreast L Q x (MonadExcept.throw stop) :=
  ⟨fun _ _ _ ↦ .escaped h⟩

theorem get {f f' : Session → Action β}
    (h : ∀ s s', L.sessions s s' → Beside L Q' (f s s) (f' s' s')) :
    Abreast L Q' (MonadState.get >>= f) (MonadState.get >>= f') :=
  ⟨h⟩

theorem modify {f f' : Session → Session}
    (h : ∀ s s', L.sessions s s' → L.sessions (f s) (f' s')) :
    Abreast L Eq (modify f : Action Unit) (modify f') :=
  ⟨fun s s' hs ↦ .ok rfl (h s s' hs)⟩

end Abreast

/-! ## Calls -/

/-- The end of a call: with the stack from before. -/
def putBack (b : Binders.Stack) :
    EStateM.Result Stop Session α → EStateM.Result Stop Session α
  | .ok a s => .ok a { s with binders := b }
  | .error stop s => .error stop { s with binders := b }

/-- What holds at the end of a call, if it does not depend on frames and calls. -/
theorem Ends.putBack {P : Session → Prop} {Q : α → Prop} {R : Stop → Prop}
    {r : EStateM.Result Stop Session α} (h : Ends P Q R r) {b : Binders.Stack}
    (hP : ∀ s, P s → P { s with binders := b }) : Ends P Q R (putBack b r) := by
  cases h with
  | ok ha hs => exact .ok ha (hP _ hs)
  | error he hs => exact .error he (hP _ hs)

theorem inCall_of_isFull {s : Session} (h : s.binders.isFull = true) (c : Closure)
    (args : Frame) (act : Action α) :
    Action.inCall c args act s = .error (.fault s.binders.tooDeep) s := by
  rw [Action.inCall, Binders.Stack.enter?, h]
  rfl

theorem inCall_of_not_isFull {s : Session} (h : s.binders.isFull = false) (c : Closure)
    (args : Frame) (act : Action α) :
    Action.inCall c args act s =
      putBack s.binders (act { s with binders := s.binders.enter c args }) := by
  rw [Action.inCall, Binders.Stack.enter?, h]
  rfl

/-- Sessions that are alike also inside and after calls. -/
structure Likeness.AllowsCalls (L : Likeness) : Prop where
  full : ∀ {s s'}, L.sessions s s' → s'.binders.isFull = s.binders.isFull ∧
      L.stops (.fault s.binders.tooDeep) (.fault s'.binders.tooDeep) ∨
    L.leaves (.fault s.binders.tooDeep) ∧ L.escapes (.fault s'.binders.tooDeep)
  enter : ∀ {s s'} (c : Closure) (args : Frame), L.sessions s s' →
    L.sessions { s with binders := s.binders.enter c args }
      { s' with binders := s'.binders.enter c args }
  leave : ∀ {s s' s₁ s₁'}, L.sessions s s' → L.sessions s₁ s₁' →
    L.sessions { s₁ with binders := s.binders } { s₁' with binders := s'.binders }

/-- Calls are abreast if what is done inside them is. -/
theorem Abreast.inCall (hL : L.AllowsCalls) (c : Closure) (args : Frame) {act act' : Action α}
    (h : Abreast L Q act act') :
    Abreast L Q (Action.inCall c args act) (Action.inCall c args act') := by
  refine ⟨fun s s' hs ↦ ?_⟩
  have hfull := hL.full hs
  cases hleft : s.binders.isFull with
  | true =>
    rw [inCall_of_isFull hleft]
    obtain ⟨hsame, hdeep⟩ | ⟨hleaves, -⟩ := hfull
    · rw [inCall_of_isFull (hsame.trans hleft)]
      exact .error hdeep hs
    · exact .left hleaves
  | false =>
    cases hright : s'.binders.isFull with
    | true =>
      obtain ⟨hsame, -⟩ | ⟨-, hescapes⟩ := hfull
      · cases hleft.symm.trans (hsame.symm.trans hright)
      · rw [inCall_of_isFull hright]
        exact .escaped hescapes
    | false =>
      rw [inCall_of_not_isFull hleft, inCall_of_not_isFull hright]
      have hinside := h.run _ _ (hL.enter c args hs)
      generalize act _ = r, act' _ = r' at hinside
      cases hinside with
      | ok ha h => exact .ok ha (hL.leave hs h)
      | error he h => exact .error he (hL.leave hs h)
      | left he => exact .left he
      | escaped he => exact .escaped he

/-! ## Facets -/

/-- A part of sessions that can be exchanged. -/
structure Facet (κ : Type) where
  of : Session → κ
  put : Session → κ → Session
  put_of : ∀ s, put s (of s) = s
  of_put : ∀ s k, of (put s k) = k

namespace Facet

variable {κ : Type} {facet : Facet κ} {holds : κ → κ → Prop}

/-- Sessions that differ in a part only, in a way that a relation allows. -/
structure Differ (facet : Facet κ) (holds : κ → κ → Prop) (s s' : Session) : Prop where
  part : holds (facet.of s) (facet.of s')
  rest : s' = facet.put s (facet.of s')

theorem differ_put (facet : Facet κ) {s : Session} {k : κ} (h : holds (facet.of s) k) :
    facet.Differ holds s (facet.put s k) := by
  refine ⟨?_, ?_⟩
  · rwa [facet.of_put]
  · rw [facet.of_put]

/-- An action that does not depend on a part, and leaves it as it is. -/
theorem abreast {stops : Stop → Stop → Prop} {leaves escapes : Stop → Prop}
    (hstops : ∀ e, stops e e) {act : Action α} (h : ∀ k, Commutes (facet.put · k) act) :
    Abreast ⟨facet.Differ holds, stops, leaves, escapes⟩ Eq act act := by
  refine ⟨fun s s' ⟨hpart, hrest⟩ ↦ ?_⟩
  have hkept : act s = atEnd (facet.put · (facet.of s)) (act s) := by
    have hrun : act (facet.put s (facet.of s)) = _ := h (facet.of s) s
    rwa [facet.put_of] at hrun
  have hsame {s₁ : Session} (hs₁ : s₁ = facet.put s₁ (facet.of s)) :
      holds (facet.of s₁) (facet.of s') := by
    rw [hs₁, facet.of_put]
    exact hpart
  rw [hrest, h (facet.of s') s]
  generalize act s = r at hkept ⊢
  cases r with
  | ok a s₁ => exact .ok rfl (facet.differ_put (hsame (EStateM.Result.ok.inj hkept).2))
  | error e s₁ => exact .error (hstops e) (facet.differ_put (hsame (EStateM.Result.error.inj hkept).2))

end Facet
end
end LineBasic
