import LineBasic.Proofs.Evaluation.Scoping
import LineBasic.Proofs.Value.Places

/-!
# Ranges at rest

A range is stepped through by a loop, which has a range of its own.  All ranges that are values, and
all that are kept somewhere in a value, stand at their start.

* `Value.Contains` — what is kept in a value.
* `Value.IsResting` — values in which all ranges stand at their start.
* `resting` — the world of these values.
* `ends_execute_resting` — statements on them come to such values only.
-/

set_option autoImplicit false
namespace LineBasic

/-! ## Values in values -/

/-- What a value is or has in it: an item of a monad, a part of a composed function, a captured
argument, or a value that was put into a body. -/
inductive Value.Contains : Value → Value → Prop
  | itself (v : Value) : Contains v v
  | element {elements v w} (hv : v ∈ elements) (h : Contains v w) : Contains (.listMonad elements) w
  | held {v w} (h : Contains v w) : Contains (.memoMonad v) w
  | composed {functions c w} (hc : c ∈ functions) (h : Contains (.closure c) w) :
      Contains (.composed functions) w
  | captured {c : Closure} {frame v w} (hframe : frame ∈ c.captured) (hv : v ∈ frame)
      (h : Contains v w) : Contains (.closure c) w
  | put {c : Closure} {v w} (hv : v ∈ c.body.values) (h : Contains v w) : Contains (.closure c) w

/-- Whether all ranges in a value stand at their start. -/
def Value.IsResting (v : Value) : Prop :=
  ∀ g, v.Contains (.generator g) → g.current = g.start

section
variable {v : Value} {c c' : Closure}

namespace Value

@[simp] theorem isResting_number (x : Float) : (number x).IsResting := nofun

@[simp] theorem isResting_string (s : String) : (string s).IsResting := nofun

@[simp] theorem isResting_boolean (b : Bool) : (boolean b).IsResting := nofun

@[simp] theorem isResting_null : null.IsResting := nofun

@[simp] theorem isResting_array (place : Nat) : (array place).IsResting := nofun

theorem isResting_fresh (start stop step : Float) :
    (generator (.fresh start stop step)).IsResting := by
  intro g h
  cases h
  rfl

theorem isResting_listMonad {elements : List Value} :
    (listMonad elements).IsResting ↔ ∀ v ∈ elements, v.IsResting := by
  refine ⟨fun h v hv g hg ↦ h g (.element hv hg), fun h g hg ↦ ?_⟩
  cases hg with
  | element hv hg => exact h _ hv g hg

theorem isResting_memoMonad : (memoMonad v).IsResting ↔ v.IsResting := by
  refine ⟨fun h g hg ↦ h g (.held hg), fun h g hg ↦ ?_⟩
  cases hg with
  | held hg => exact h g hg

theorem isResting_composed {functions : List Closure} :
    (composed functions).IsResting ↔ ∀ c ∈ functions, (closure c).IsResting := by
  refine ⟨fun h c hc g hg ↦ h g (.composed hc hg), fun h g hg ↦ ?_⟩
  cases hg with
  | composed hc hg => exact h _ hc g hg

theorem isResting_closure : (closure c).IsResting ↔
    (∀ frame ∈ c.captured, ∀ v ∈ frame, v.IsResting) ∧ ∀ v ∈ c.body.values, v.IsResting := by
  refine ⟨fun h ↦ ⟨fun frame hframe v hv g hg ↦ h g (.captured hframe hv hg),
    fun v hv g hg ↦ h g (.put hv hg)⟩, fun h g hg ↦ ?_⟩
  cases hg with
  | captured hframe hv hg => exact h.1 _ hframe _ hv g hg
  | put hv hg => exact h.2 _ hv g hg

end Value

theorem Closure.isResting_curry? (hc : (Value.closure c).IsResting) (hv : v.IsResting)
    (h : c.curry? v = some c') : (Value.closure c').IsResting := by
  obtain ⟨hcaptured, hbody⟩ := Value.isResting_closure.1 hc
  obtain ⟨arity, body, captured, name⟩ := c
  cases arity with
  | zero => cases h
  | succ arity =>
    cases h
    exact Value.isResting_closure.2 ⟨hcaptured, Tree.forall_values_substitute hv 0 hbody⟩

theorem Closure.isResting_rename (name : String) (hc : (Value.closure c).IsResting) :
    (Value.closure (c.rename name)).IsResting := by
  obtain ⟨hcaptured, hbody⟩ := Value.isResting_closure.1 hc
  cases c
  exact Value.isResting_closure.2 ⟨hcaptured, hbody⟩

theorem Builtin.isResting_closure (b : Builtin) (arity : Nat) :
    (Value.closure (b.closure arity)).IsResting := by
  have hparameters : ∀ t ∈ (List.range arity).map (Tree.parameter 0), ∀ v ∈ t.values,
      v.IsResting := List.forall_mem_map.2 fun _ _ ↦ List.forall_mem_nil _
  have hbody : ∀ v ∈ (b.closure arity).body.values, v.IsResting :=
    Tree.forall_mem_allValues.2 hparameters
  exact Value.isResting_closure.2 ⟨List.forall_mem_nil _, hbody⟩

theorem isResting_of_constant? {key : String} (h : constant? key = some v) : v.IsResting := by
  obtain ⟨e, he, rfl⟩ := Option.map_eq_some_iff.1 h
  have hid : (Value.closure (.mk 1 (.parameter 0 0) [] "ID")).IsResting :=
    Value.isResting_closure.2 ⟨List.forall_mem_nil _, List.forall_mem_nil _⟩
  have hall : ∀ e ∈ constants, e.2.IsResting := by
    simp only [constants, List.forall_mem_cons]
    exact ⟨Value.isResting_array _, Value.isResting_number _, Value.isResting_number _,
      Value.isResting_number _, hid, Value.isResting_null, Value.isResting_boolean _,
      Value.isResting_boolean _, List.forall_mem_nil _⟩
  exact hall e (List.mem_of_find?_eq_some he)

end

/-! ## Statements -/

/-- The world of values in which all ranges stand at their start. -/
def resting : World where
  good := Value.IsResting
  fits frames t := (∀ v ∈ t.values, v.IsResting) ∧ ∀ frame ∈ frames, ∀ v ∈ frame, v.IsResting
  uses _ := True
  stops _ _ := True
  escapes _ := False
  stops_refl _ _ := trivial
  number := Value.isResting_number
  string := Value.isResting_string
  boolean := Value.isResting_boolean
  null := Value.isResting_null
  array := Value.isResting_array
  generator := Value.isResting_fresh
  listMonad := Value.isResting_listMonad
  memoMonad := Value.isResting_memoMonad
  composed := Value.isResting_composed
  curry := Closure.isResting_curry?
  rename := Closure.isResting_rename
  builtin arity _ := Builtin.isResting_closure _ arity
  ident _ _ := trivial
  constant := isResting_of_constant?
  part h u hu := ⟨Tree.forall_values_parts h.1 u hu, h.2⟩
  value h := h.1 _ (List.mem_singleton_self _)
  lambda h := Value.isResting_closure.2 ⟨h.2, h.1⟩
  argument h hlookup := by
    obtain ⟨frame, hframe, hv⟩ := Binders.Stack.mem_of_lookup_eq_ok hlookup
    exact h.2 frame hframe _ hv
  missing _ _ := trivial

theorem resting_fits_body (c : Closure) (args : List Value) (hc : resting.good (.closure c))
    (hargs : ∀ v ∈ args, resting.good v) : resting.fits (args :: c.captured) c.body := by
  obtain ⟨hcaptured, hbody⟩ := Value.isResting_closure.1 hc
  exact ⟨hbody, List.forall_mem_cons.2 ⟨hargs, hcaptured⟩⟩

/-- A statement without values in it advances no range that a session keeps, and leaves none behind
that was advanced. -/
theorem ends_execute_resting (site : Site) {t : Tree} (ht : t.values = []) {s : Session}
    (hframes : s.binders.frames = []) (hs : s.All Value.IsResting) :
    Ends (s.IsBack Value.IsResting) (fun p ↦ p.1.IsResting) (fun _ ↦ True) (execute site t s) := by
  have hfits : resting.fits s.binders.frames t := by
    rw [hframes]
    exact ⟨ht ▸ List.forall_mem_nil _, List.forall_mem_nil _⟩
  have hagree : Agree resting s.binders.frames (Operand.IsGood resting) s (evaluate site t s)
      (evaluate site t s) :=
    (lockstep_eval (lockstep_callWithin resting_fits_body site s.room) hfits).run s rfl hs
  exact (ends_execute (fun _ ↦ id) (hagree.ends fun _ _ _ ↦ id)).mono (fun _ ↦ id) (fun _ ↦ id)
    fun _ _ ↦ trivial

end LineBasic
