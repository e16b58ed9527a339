import LineBasic.Proofs.Results

/-!
# Kept properties

What holds of the state before a computation and after it, however it ends.  There is one lemma for
each way of building a computation, so that for a whole program only its own actions are looked at.

* `Ends` — how a computation ended: its state, and its value or its error.
* `Ends.decidable`, `decidableExistsOk`, `decidableForallOk` — on given input, this is found out by
  running the computation.
* `Keeps` — a property that a computation keeps, and what holds of its values.
-/

set_option autoImplicit false
namespace LineBasic

/-- What holds of the end of a computation: `P` of the state, `Q` of a value, `R` of an error. -/
inductive Ends {ε σ α : Type} (P : σ → Prop) (Q : α → Prop) (R : ε → Prop) :
    EStateM.Result ε σ α → Prop
  | ok {a : α} {s : σ} (ha : Q a) (hs : P s) : Ends P Q R (.ok a s)
  | error {e : ε} {s : σ} (he : R e) (hs : P s) : Ends P Q R (.error e s)

/-- A computation that keeps a property of the state, and has values of a kind. -/
structure Keeps {ε σ α : Type} (P : σ → Prop) (Q : α → Prop) (act : EStateM ε σ α) : Prop where
  run : ∀ s, P s → Ends P Q (fun _ ↦ True) (act s)

section
variable {ε σ α β : Type} {P : σ → Prop} {Q : α → Prop} {Q' : β → Prop} {R : ε → Prop}

theorem Ends.of_ok {a : α} {s : σ} (h : Ends P Q R (.ok a s)) : Q a ∧ P s := by
  cases h with
  | ok ha hs => exact ⟨ha, hs⟩

theorem Ends.of_error {e : ε} {s : σ} (h : Ends P Q R (.error e s)) : R e ∧ P s := by
  cases h with
  | error he hs => exact ⟨he, hs⟩

theorem Ends.mono {P' : σ → Prop} {Q₂ : α → Prop} {R' : ε → Prop}
    {r : EStateM.Result ε σ α} (h : Ends P Q R r) (hP : ∀ s, P s → P' s) (hQ : ∀ a, Q a → Q₂ a)
    (hR : ∀ e, R e → R' e) : Ends P' Q₂ R' r := by
  cases h with
  | ok ha hs => exact .ok (hQ _ ha) (hP _ hs)
  | error he hs => exact .error (hR _ he) (hP _ hs)

theorem Ends.and {P' : σ → Prop} {Q₂ : α → Prop} {R' : ε → Prop} {r : EStateM.Result ε σ α}
    (h : Ends P Q R r) (h' : Ends P' Q₂ R' r) :
    Ends (fun s ↦ P s ∧ P' s) (fun a ↦ Q a ∧ Q₂ a) (fun e ↦ R e ∧ R' e) r := by
  cases h with
  | ok ha hs => exact .ok ⟨ha, h'.of_ok.1⟩ ⟨hs, h'.of_ok.2⟩
  | error he hs => exact .error ⟨he, h'.of_error.1⟩ ⟨hs, h'.of_error.2⟩

instance Ends.decidable [DecidablePred P] [DecidablePred Q] [DecidablePred R]
    (act : EStateM ε σ α) (s : σ) : Decidable (Ends P Q R (act s)) :=
  match act s with
  | .ok a s => decidable_of_iff (Q a ∧ P s) ⟨fun h ↦ .ok h.1 h.2, Ends.of_ok⟩
  | .error e s => decidable_of_iff (R e ∧ P s) ⟨fun h ↦ .error h.1 h.2, Ends.of_error⟩

instance decidableExistsOk {T : α → σ → Prop} [∀ a s, Decidable (T a s)] (act : EStateM ε σ α)
    (s : σ) : Decidable (∃ a s', act s = .ok a s' ∧ T a s') :=
  match act s with
  | .ok a s' => decidable_of_iff (T a s') ⟨fun h ↦ ⟨a, s', rfl, h⟩, fun ⟨_, _, heq, h⟩ ↦ by
      cases heq; exact h⟩
  | .error _ _ => isFalse nofun

instance decidableForallOk {T : α → σ → Prop} [∀ a s, Decidable (T a s)] (act : EStateM ε σ α)
    (s : σ) : Decidable (∀ a s', act s = .ok a s' → T a s') :=
  match act s with
  | .ok a s' => decidable_of_iff (T a s') ⟨fun h _ _ heq ↦ by cases heq; exact h, fun h ↦ h _ _ rfl⟩
  | .error _ _ => isTrue nofun

theorem Ends.exists_ok {r : EStateM.Result ε σ α} (h : Ends P Q (fun _ ↦ False) r) :
    ∃ a s, r = .ok a s ∧ Q a ∧ P s := by
  cases h with
  | ok ha hs => exact ⟨_, _, rfl, ha, hs⟩
  | error he _ => exact he.elim

theorem Ends.exists_error {r : EStateM.Result ε σ α} (h : Ends P (fun _ ↦ False) R r) :
    ∃ e s, r = .error e s ∧ R e ∧ P s := by
  cases h with
  | ok ha _ => exact ha.elim
  | error he hs => exact ⟨_, _, rfl, he, hs⟩

theorem Ends.bind {P' : σ → Prop} {x : EStateM ε σ α} {f : α → EStateM ε σ β} {s : σ}
    (hx : Ends P Q R (x s)) (hf : ∀ a s', Q a → P s' → Ends P' Q' R (f a s'))
    (hP : ∀ s', P s' → P' s') : Ends P' Q' R ((x >>= f) s) := by
  change Ends P' Q' R (EStateM.bind x f s)
  unfold EStateM.bind
  generalize x s = r at hx
  cases hx with
  | ok ha hs => exact hf _ _ ha hs
  | error he hs => exact .error he (hP _ hs)

namespace Keeps

theorem pure {a : α} (h : Q a) : Keeps P Q (pure a : EStateM ε σ α) :=
  ⟨fun _ hs ↦ .ok h hs⟩

theorem throw (e : ε) : Keeps P Q (throw e : EStateM ε σ α) :=
  ⟨fun _ hs ↦ .error trivial hs⟩

theorem bind {x : EStateM ε σ α} {f : α → EStateM ε σ β} (hx : Keeps P Q x)
    (hf : ∀ a, Q a → Keeps P Q' (f a)) : Keeps P Q' (x >>= f) :=
  ⟨fun s hs ↦ (hx.run s hs).bind (fun a s' ha hs' ↦ (hf a ha).run s' hs') fun _ hs' ↦ hs'⟩

theorem get {f : σ → EStateM ε σ β} (h : ∀ s, P s → Keeps P Q' (f s)) :
    Keeps P Q' (MonadState.get >>= f) :=
  ⟨fun s hs ↦ (h s hs).run s hs⟩

theorem set {s : σ} (h : P s) : Keeps P (fun _ ↦ True) (set s : EStateM ε σ PUnit) :=
  ⟨fun _ _ ↦ .ok trivial h⟩

theorem modify {f : σ → σ} (h : ∀ s, P s → P (f s)) :
    Keeps P (fun _ ↦ True) (modify f : EStateM ε σ PUnit) :=
  ⟨fun s hs ↦ .ok trivial (h s hs)⟩

theorem ite {c : Prop} [Decidable c] {x y : EStateM ε σ α} (hx : c → Keeps P Q x)
    (hy : ¬ c → Keeps P Q y) : Keeps P Q (if c then x else y) := by
  split
  · exact hx ‹_›
  · exact hy ‹_›

theorem mapM {γ : Type} {f : γ → EStateM ε σ α} {as : List γ}
    (h : ∀ a ∈ as, Keeps P Q (f a)) : Keeps P (fun bs ↦ ∀ b ∈ bs, Q b) (as.mapM f) := by
  induction as with
  | nil =>
    rw [List.mapM_nil]
    exact pure (List.forall_mem_nil _)
  | cons a as ih =>
    rw [List.forall_mem_cons] at h
    rw [List.mapM_cons]
    exact bind h.1 fun b hb ↦ bind (ih h.2) fun bs hbs ↦ pure (List.forall_mem_cons.2 ⟨hb, hbs⟩)

theorem mapOption {γ : Type} {f : γ → EStateM ε σ α} {o : Option γ}
    (h : ∀ a, Keeps P (fun _ ↦ True) (f a)) : Keeps P (fun _ ↦ True) (o.mapM f) := by
  cases o with
  | none => exact pure trivial
  | some a => exact bind (h a) fun _ _ ↦ pure trivial

theorem forM {γ : Type} {f : γ → EStateM ε σ PUnit} {as : List γ}
    (h : ∀ a ∈ as, Keeps P (fun _ ↦ True) (f a)) : Keeps P (fun _ ↦ True) (as.forM f) := by
  induction as with
  | nil => exact pure trivial
  | cons a as ih =>
    rw [List.forall_mem_cons] at h
    exact bind h.1 fun _ _ ↦ ih h.2

theorem forIn {γ : Type} {f : γ → α → EStateM ε σ (ForInStep α)} {as : List γ} {start : α}
    (h : ∀ a ∈ as, ∀ b, Keeps P (fun _ ↦ True) (f a b)) :
    Keeps P (fun _ ↦ True) (forIn as start f) := by
  induction as generalizing start with
  | nil => exact pure trivial
  | cons a as ih =>
    rw [List.forall_mem_cons] at h
    rw [List.forIn_cons]
    refine bind (h.1 start) fun next _ ↦ ?_
    cases next with
    | done b => exact pure trivial
    | yield b => exact ih h.2

end Keeps
end
end LineBasic
