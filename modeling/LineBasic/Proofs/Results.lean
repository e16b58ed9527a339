import Mathlib.Data.List.Forall2

/-!
# Results that may be failures

How a computation that may fail ends, by how its parts end.

* `bind_eq_ok` — what it is to succeed.
* `bind_run_eq_ok`, `bind_run_eq_error` — the same for computations on a state.
* `OnlyFails` — all failures are of a kind.
-/

set_option autoImplicit false
namespace LineBasic

/-! ## Success -/

theorem bind_eq_ok {ε α β : Type} {x : Except ε α} {f : α → Except ε β} {b : β} :
    (x >>= f) = .ok b ↔ ∃ a, x = .ok a ∧ f a = .ok b := by
  cases x with
  | error e => simp [bind, Except.bind]
  | ok a => simp [bind, Except.bind]

theorem pure_eq_ok {ε α : Type} {a b : α} : (pure a : Except ε α) = .ok b ↔ a = b :=
  ⟨Except.ok.inj, congrArg _⟩

theorem mapError_eq_ok {ε ε' α : Type} {x : Except ε α} {f : ε → ε'} {a : α} :
    x.mapError f = .ok a ↔ x = .ok a := by
  cases x with
  | error e => exact iff_of_false nofun nofun
  | ok b => exact ⟨fun h ↦ congrArg _ (Except.ok.inj h), fun h ↦ congrArg _ (Except.ok.inj h)⟩

theorem mapError_bind {ε ε' α β : Type} (x : Except ε α) (f : α → Except ε β) (g : ε → ε') :
    (x >>= f).mapError g = x.mapError g >>= fun a ↦ (f a).mapError g := by
  cases x <;> rfl

theorem mapError_mapM {ε ε' α β : Type} (f : α → Except ε β) (as : List α) (g : ε → ε') :
    (as.mapM f).mapError g = as.mapM fun a ↦ (f a).mapError g := by
  induction as with
  | nil => rfl
  | cons a as ih =>
    simp only [List.mapM_cons, mapError_bind, ih]
    rfl

/-- The results of a list of computations, one by one. -/
theorem forall₂_of_mapM {ε α β : Type} {f : α → Except ε β} {as : List α} {bs : List β}
    (h : as.mapM f = .ok bs) : List.Forall₂ (fun a b ↦ f a = .ok b) as bs := by
  induction as generalizing bs with
  | nil =>
    cases h
    exact .nil
  | cons a as ih =>
    rw [List.mapM_cons] at h
    obtain ⟨b, hb, h⟩ := bind_eq_ok.1 h
    obtain ⟨rest, hrest, h⟩ := bind_eq_ok.1 h
    cases h
    exact .cons hb (ih hrest)

theorem mapM_of_forall₂ {ε α β : Type} {f : α → Except ε β} {as : List α} {bs : List β}
    (h : List.Forall₂ (fun a b ↦ f a = .ok b) as bs) : as.mapM f = .ok bs := by
  induction h with
  | nil => rfl
  | cons hab _ ih =>
    rw [List.mapM_cons, hab, ih]
    rfl

/-- What holds of each result of a list of computations holds of all. -/
theorem forall_mem_of_mapM {ε α β : Type} {f : α → Except ε β} {p : β → Prop} {as : List α}
    {bs : List β} (h : as.mapM f = .ok bs) (hf : ∀ a ∈ as, ∀ b, f a = .ok b → p b) :
    ∀ b ∈ bs, p b := by
  have hall := forall₂_of_mapM h
  clear h
  induction hall with
  | nil => nofun
  | cons hab _ ih =>
    exact List.forall_mem_cons.2 ⟨hf _ (List.mem_cons_self ..) _ hab,
      ih fun a ha ↦ hf a (List.mem_cons_of_mem _ ha)⟩

/-- A list of computations succeeds if each of them does. -/
theorem exists_mapM {ε α β : Type} {f : α → Except ε β} {as : List α}
    (h : ∀ a ∈ as, ∃ b, f a = .ok b) : ∃ bs, as.mapM f = .ok bs := by
  induction as with
  | nil => exact ⟨[], rfl⟩
  | cons a as ih =>
    obtain ⟨⟨b, hb⟩, has⟩ := List.forall_mem_cons.1 h
    obtain ⟨bs, hbs⟩ := ih has
    exact ⟨b :: bs, by rw [List.mapM_cons, hb, hbs]; rfl⟩

/-- What each step of a fold keeps, the fold keeps. -/
theorem of_foldlM {ε α β : Type} {f : α → β → Except ε α} {p : α → Prop} {bs : List β} {a a' : α}
    (h : bs.foldlM f a = .ok a') (ha : p a)
    (hf : ∀ a, p a → ∀ b ∈ bs, ∀ a', f a b = .ok a' → p a') : p a' := by
  induction bs generalizing a with
  | nil => exact Except.ok.inj h ▸ ha
  | cons b bs ih =>
    rw [List.foldlM_cons] at h
    obtain ⟨a₁, hb, h⟩ := bind_eq_ok.1 h
    exact ih h (hf a ha b (List.mem_cons_self ..) a₁ hb)
      fun a ha b hb ↦ hf a ha b (List.mem_cons_of_mem _ hb)

/-! ## Computations on a state -/

theorem bind_run_eq_ok {ε σ α β : Type} {x : EStateM ε σ α} {f : α → EStateM ε σ β} {s s' : σ}
    {b : β} : (x >>= f) s = .ok b s' ↔ ∃ a s₁, x s = .ok a s₁ ∧ f a s₁ = .ok b s' := by
  change EStateM.bind x f s = _ ↔ _
  unfold EStateM.bind
  cases x s with
  | ok a s₁ => exact ⟨fun h ↦ ⟨a, s₁, rfl, h⟩, fun ⟨_, _, h, hf⟩ ↦ by cases h; exact hf⟩
  | error e s₁ => exact ⟨nofun, fun ⟨_, _, h, _⟩ ↦ by cases h⟩

theorem bind_run_eq_error {ε σ α β : Type} {x : EStateM ε σ α} {f : α → EStateM ε σ β} {s s' : σ}
    {e : ε} : (x >>= f) s = .error e s' ↔
      x s = .error e s' ∨ ∃ a s₁, x s = .ok a s₁ ∧ f a s₁ = .error e s' := by
  change EStateM.bind x f s = _ ↔ _
  unfold EStateM.bind
  cases x s with
  | ok a s₁ => exact ⟨fun h ↦ .inr ⟨a, s₁, rfl, h⟩, fun h ↦ by
      obtain h | ⟨_, _, h, hf⟩ := h
      · cases h
      · cases h; exact hf⟩
  | error e' s₁ => exact ⟨fun h ↦ by cases h; exact .inl rfl, fun h ↦ by
      obtain h | ⟨_, _, h, -⟩ := h
      · cases h; rfl
      · cases h⟩

theorem bind_run_of_ok {ε σ α β : Type} {x : EStateM ε σ α} {f : α → EStateM ε σ β} {s s₁ : σ}
    {a : α} (h : x s = .ok a s₁) : (x >>= f) s = f a s₁ := by
  change EStateM.bind x f s = _
  rw [EStateM.bind, h]

theorem bind_run_of_error {ε σ α β : Type} {x : EStateM ε σ α} {f : α → EStateM ε σ β} {s s₁ : σ}
    {e : ε} (h : x s = .error e s₁) : (x >>= f) s = .error e s₁ := by
  change EStateM.bind x f s = _
  rw [EStateM.bind, h]

theorem get_bind_run {ε σ β : Type} (f : σ → EStateM ε σ β) (s : σ) :
    (MonadState.get >>= f) s = f s s := rfl

theorem bind_run_congr {ε σ α β : Type} {x y : EStateM ε σ α} {f g : α → EStateM ε σ β}
    {s s' : σ} (h : x s = y s') (hf : ∀ a s₁, x s = .ok a s₁ → f a s₁ = g a s₁) :
    (x >>= f) s = (y >>= g) s' := by
  change EStateM.bind x f s = EStateM.bind y g s'
  unfold EStateM.bind
  rw [← h]
  cases hx : x s with
  | ok a s₁ => exact hf a s₁ hx
  | error e s₁ => rfl

/-- What each step of a fold keeps, the fold keeps. -/
theorem of_foldlM_run {ε σ α β : Type} {f : α → β → EStateM ε σ α} {p : α → Prop} {bs : List β}
    {a a' : α} {s s' : σ} (h : bs.foldlM f a s = .ok a' s') (ha : p a)
    (hf : ∀ a, p a → ∀ b ∈ bs, ∀ s a' s', f a b s = .ok a' s' → p a') : p a' := by
  induction bs generalizing a s with
  | nil =>
    cases h
    exact ha
  | cons b bs ih =>
    rw [List.foldlM_cons] at h
    obtain ⟨a₁, s₁, hb, h⟩ := bind_run_eq_ok.1 h
    exact ih h (hf a ha b (List.mem_cons_self ..) s a₁ s₁ hb)
      fun a ha b hb ↦ hf a ha b (List.mem_cons_of_mem _ hb)

/-- A loop fails in one of its rounds. -/
theorem exists_of_forIn_eq_error {ε σ α γ : Type} {f : γ → α → EStateM ε σ (ForInStep α)}
    {as : List γ} {start : α} {s s' : σ} {e : ε} (h : forIn as start f s = .error e s') :
    ∃ a ∈ as, ∃ b s₁, f a b s₁ = .error e s' := by
  induction as generalizing start s with
  | nil => cases h
  | cons a as ih =>
    rw [List.forIn_cons] at h
    obtain h | ⟨next, s₁, -, h⟩ := bind_run_eq_error.1 h
    · exact ⟨a, List.mem_cons_self .., start, s, h⟩
    · cases next with
      | done b => cases h
      | yield b =>
        obtain ⟨c, hc, hfails⟩ := ih h
        exact ⟨c, List.mem_cons_of_mem _ hc, hfails⟩

/-! ## Failure -/

/-- Whether all failures of a computation are of a kind. -/
def OnlyFails {ε α : Type} (p : ε → Prop) (x : Except ε α) : Prop :=
  ∀ e, x = .error e → p e

namespace OnlyFails

variable {ε α β : Type} {p : ε → Prop}

theorem ok (a : α) : OnlyFails p (.ok a) := nofun

theorem error {e : ε} (h : p e) : OnlyFails p (.error e : Except ε α) := by
  intro e' he
  cases he
  exact h

theorem mono {p' : ε → Prop} {x : Except ε α} (h : OnlyFails p x) (hp : ∀ e, p e → p' e) :
    OnlyFails p' x :=
  fun e he ↦ hp e (h e he)

theorem bind {x : Except ε α} {f : α → Except ε β} (hx : OnlyFails p x)
    (hf : ∀ a, OnlyFails p (f a)) : OnlyFails p (x >>= f) := by
  cases x with
  | error e => exact error (hx e rfl)
  | ok a => exact hf a

theorem ite {c : Prop} [Decidable c] {x y : Except ε α} (hx : OnlyFails p x)
    (hy : OnlyFails p y) : OnlyFails p (if c then x else y) := by
  split
  · exact hx
  · exact hy

theorem mapM {f : α → Except ε β} {as : List α} (h : ∀ a ∈ as, OnlyFails p (f a)) :
    OnlyFails p (as.mapM f) := by
  induction as with
  | nil =>
    rw [List.mapM_nil]
    exact ok _
  | cons a as ih =>
    rw [List.mapM_cons]
    exact bind (h a (List.mem_cons_self ..)) fun _ ↦
      bind (ih fun b hb ↦ h b (List.mem_cons_of_mem _ hb)) fun _ ↦ ok _

end OnlyFails

end LineBasic
