import LineBasic.Proofs.Session.Reachable
import LineBasic.Proofs.Tree.Builtins

/-!
# Fixing several parameters

Fixing the parameters of a function one after the other puts all the values into its body at once.
Each reference to one of the fixed parameters gives way to its value, however many functions of the
body are around it, and the references to the parameters that are left count from the first of them.
References to parameters of functions inside the body and to captured frames stay as they are, and
so do the values that stand in the body, whatever references there are in functions among them.

That each step moves the positions of the other parameters is what makes the order work out: the
next value is for the parameter that has just become the first.

* `Tree.supply`, `Closure.supply` — putting values into a body at once.
* `Tree.supply_cons` — one step at a time comes to the same.
* `Tree.Occurs.of_substitute` — what occurs in a body after a step occurred in it before.
* `Closure.curry_isSubstitution` — the result.
-/

set_option autoImplicit false
namespace LineBasic

namespace Tree

/-! ## Putting values in all at once -/

mutual

/-- Puts values in the places of the first parameters of the function `level` functions out, all at
once.  The parameters after them are counted from the first that is left. -/
def supply (vs : List Value) (level : Nat) : Tree → Tree
  | .parameter depth index =>
    if depth = level then
      match vs[index]? with
      | some v => .value v
      | none => .parameter depth (index - vs.length)
    else .parameter depth index
  | .unary op operand => .unary op (supply vs level operand)
  | .binary op left right => .binary op (supply vs level left) (supply vs level right)
  | .call name args separators => .call name (supplyAll vs level args) separators
  | .apply callee args separators =>
    .apply (supply vs level callee) (supplyAll vs level args) separators
  | .array elements => .array (supplyAll vs level elements)
  | .lambda names body => .lambda names (supply vs (level + 1) body)
  | .branch condition yes no =>
    .branch (supply vs level condition) (supply vs level yes) (supplyElse vs level no)
  | .select kind test targets => .select kind (supply vs level test) (supplyAll vs level targets)
  | t => t

/-- Puts the values into several trees. -/
def supplyAll (vs : List Value) (level : Nat) : List Tree → List Tree
  | [] => []
  | t :: ts => supply vs level t :: supplyAll vs level ts

/-- Puts the values into the other branch of a conditional. -/
def supplyElse (vs : List Value) (level : Nat) : Option Tree → Option Tree
  | none => none
  | some t => some (supply vs level t)

end

theorem supplyAll_eq_map (vs : List Value) (level : Nat) (ts : List Tree) :
    supplyAll vs level ts = ts.map (supply vs level) := by
  induction ts with
  | nil => rfl
  | cons t ts ih => rw [supplyAll, ih, List.map_cons]

theorem supply_parameter_cons (v : Value) (vs : List Value) (level depth index : Nat) :
    (parameter depth index).supply (v :: vs) level =
      ((parameter depth index).substitute v level).supply vs level := by
  by_cases hdepth : depth = level
  · cases index with
    | zero => simp [supply, substitute, hdepth]
    | succ index => simp [supply, substitute, hdepth]
  · simp [supply, substitute, hdepth]

theorem supplyAll_cons {v : Value} {vs : List Value} {level : Nat} {ts : List Tree}
    (h : ∀ t ∈ ts, t.supply (v :: vs) level = (t.substitute v level).supply vs level) :
    supplyAll (v :: vs) level ts = supplyAll vs level (substituteAll v level ts) := by
  rw [supplyAll_eq_map, supplyAll_eq_map, substituteAll_eq_map, List.map_map]
  exact List.map_congr_left h

/-- The first value may be put in before the others. -/
theorem supply_cons (v : Value) (vs : List Value) (t : Tree) (level : Nat) :
    t.supply (v :: vs) level = (t.substitute v level).supply vs level := by
  induction t using Tree.induction generalizing level with
  | unary op operand ih => rw [supply, substitute, supply, ih]
  | binary op left right ihl ihr => rw [supply, substitute, supply, ihl, ihr]
  | call name args separators ih =>
    rw [supply, substitute, supply, supplyAll_cons fun t ht ↦ ih t ht level]
  | apply callee args separators ihc ih =>
    rw [supply, substitute, supply, ihc, supplyAll_cons fun t ht ↦ ih t ht level]
  | array elements ih =>
    rw [supply, substitute, supply, supplyAll_cons fun t ht ↦ ih t ht level]
  | lambda names body ih => rw [supply, substitute, supply, ih]
  | parameter depth index => exact supply_parameter_cons v vs level depth index
  | branch condition yes no ihc ihy ihn =>
    rw [supply, substitute, supply, ihc, ihy]
    cases no with
    | none => rfl
    | some no => rw [supplyElse, substituteElse, supplyElse, ihn no rfl]
  | select kind test targets iht ih =>
    rw [supply, substitute, supply, iht, supplyAll_cons fun t ht ↦ ih t ht level]
  | _ => rfl

theorem supplyAll_nil {level : Nat} {ts : List Tree} (h : ∀ t ∈ ts, t.supply [] level = t) :
    supplyAll [] level ts = ts := by
  rw [supplyAll_eq_map, List.map_congr_left h, List.map_id']

theorem supply_nil (t : Tree) (level : Nat) : t.supply [] level = t := by
  induction t using Tree.induction generalizing level with
  | unary op operand ih => rw [supply, ih]
  | binary op left right ihl ihr => rw [supply, ihl, ihr]
  | call name args separators ih => rw [supply, supplyAll_nil fun t ht ↦ ih t ht level]
  | apply callee args separators ihc ih =>
    rw [supply, supplyAll_nil fun t ht ↦ ih t ht level, ihc]
  | array elements ih => rw [supply, supplyAll_nil fun t ht ↦ ih t ht level]
  | lambda names body ih => rw [supply, ih]
  | parameter depth index => simp [supply]
  | branch condition yes no ihc ihy ihn =>
    rw [supply, ihc, ihy]
    cases no with
    | none => rfl
    | some no => rw [supplyElse, ihn no rfl]
  | select kind test targets iht ih =>
    rw [supply, supplyAll_nil fun t ht ↦ ih t ht level, iht]
  | _ => rfl

/-! ## References after a step -/

/-- Whether no named function is defined in a tree, as it is when its parameters are resolved. -/
def DefinesNothing (t : Tree) : Prop :=
  ∀ lists name names body, ¬ Occurs lists (.define name names body) t

theorem ScopedIn.definesNothing {bound : Frame → Option Nat} {bounds : List (Option Nat)} {t : Tree}
    (h : t.ScopedIn bound bounds) : t.DefinesNothing :=
  fun _ _ _ _ hdefine ↦ h.of_occurs hdefine

theorem DefinesNothing.part {t u : Tree} (h : t.DefinesNothing) (hu : u ∈ t.parts) :
    u.DefinesNothing :=
  fun lists name names body hdefine ↦ h lists name names body (hdefine.of_part hu)

theorem DefinesNothing.body {names : List String} {t : Tree} (h : (lambda names t).DefinesNothing) :
    t.DefinesNothing :=
  fun _ name names' body hdefine ↦ h _ name names' body (.body hdefine)

/-- Where a tree occurs in another: it is that one, or it occurs in a part or in the body of it. -/
theorem Occurs.inv {lists : List (List String)} {s t : Tree} (h : Occurs lists s t) :
    lists = [] ∧ s = t ∨ (∃ u ∈ t.parts, Occurs lists s u) ∨
      (∃ outer names body, lists = outer ++ [names] ∧ t = .lambda names body ∧
        Occurs outer s body) ∨
      ∃ name names body, t = .define name names body := by
  cases h with
  | here => exact .inl ⟨rfl, rfl⟩
  | body h => exact .inr (.inr (.inl ⟨_, _, _, rfl, rfl, h⟩))
  | defined h => exact .inr (.inr (.inr ⟨_, _, _, rfl⟩))
  | argument ht h | element ht h => exact .inr (.inl ⟨_, ht, h⟩)
  | applied ht h | target ht h => exact .inr (.inl ⟨_, List.mem_cons_of_mem _ ht, h⟩)
  | operand h | left h | callee h | condition h | test h =>
    exact .inr (.inl ⟨_, List.mem_cons_self .., h⟩)
  | right h | yes h => exact .inr (.inl ⟨_, List.mem_cons_of_mem _ (List.mem_cons_self ..), h⟩)
  | no h => exact .inr (.inl ⟨_, by simp [parts], h⟩)

theorem lambda_of_substitute {v : Value} {level : Nat} {names : List String} {t body : Tree}
    (h : t.substitute v level = .lambda names body) :
    ∃ u, t = .lambda names u ∧ body = u.substitute v (level + 1) := by
  cases t with
  | lambda names u =>
    cases h
    exact ⟨u, rfl, rfl⟩
  | parameter depth index =>
    rcases substitute_parameter v level depth index with ⟨_, hsame⟩ | hvalue
    · rw [hsame] at h
      cases h
    · rw [hvalue] at h
      cases h
  | _ => cases h

theorem define_of_substitute {v : Value} {level : Nat} {name : String} {names : List String}
    {t body : Tree} (h : t.substitute v level = .define name names body) :
    t = .define name names body := by
  cases t with
  | define => exact h
  | parameter depth index =>
    rcases substitute_parameter v level depth index with ⟨_, hsame⟩ | hvalue
    · rw [hsame] at h
      cases h
    · rw [hvalue] at h
      cases h
  | _ => cases h

/-- Induction into the bodies of functions too, where no named function is defined. -/
@[elab_as_elim]
theorem bodies_induction {motive : Tree → Prop}
    (step : ∀ t, (∀ u ∈ t.parts, motive u) → (∀ names u, t = .lambda names u → motive u) →
      motive t) (t : Tree) : motive t := by
  have hstep (t : Tree) (ht : ∀ names u, t ≠ .lambda names u) (h : ∀ u ∈ t.parts, motive u) :
      motive t := step t h fun names u heq ↦ absurd heq (ht names u)
  induction t using Tree.induction with
  | unary op operand ih => exact hstep _ (by simp) (by simpa [parts] using ih)
  | binary op left right ihl ihr => exact hstep _ (by simp) (by simpa [parts] using ⟨ihl, ihr⟩)
  | call name args separators ih => exact hstep _ (by simp) ih
  | apply callee args separators ihc ih =>
    exact hstep _ (by simp) (List.forall_mem_cons.2 ⟨ihc, ih⟩)
  | array elements ih => exact hstep _ (by simp) ih
  | lambda names body ih =>
    refine step _ (by simp [parts]) fun names' u heq ↦ ?_
    cases heq
    exact ih
  | branch condition yes no ihc ihy ihn =>
    exact hstep _ (by simp) (by simpa [parts] using ⟨ihc, ihy, ihn⟩)
  | select kind test targets iht ih =>
    exact hstep _ (by simp) (List.forall_mem_cons.2 ⟨iht, ih⟩)
  | _ => exact hstep _ (by simp) (by simp [parts])

/-- Whatever occurs in a tree after a step is what became of something that occurred there before,
under the same functions. -/
theorem Occurs.of_substitute {v : Value} {level : Nat} {lists : List (List String)} {s t : Tree}
    (ht : t.DefinesNothing) (h : Occurs lists s (t.substitute v level)) :
    ∃ u, Occurs lists u t ∧ s = u.substitute v (level + lists.length) := by
  induction t using Tree.bodies_induction generalizing level lists with
  | step t ihpart ihbody =>
    obtain ⟨rfl, rfl⟩ | ⟨u, hu, hs⟩ | ⟨outer, names, body, rfl, hlambda, hs⟩ | ⟨_, _, _, hdefine⟩ :=
      h.inv
    · exact ⟨t, .here t, rfl⟩
    · rw [parts_substitute] at hu
      obtain ⟨w, hw, rfl⟩ := List.mem_map.1 hu
      obtain ⟨r, hr, rfl⟩ := ihpart w hw (ht.part hw) hs
      exact ⟨r, hr.of_part hw, rfl⟩
    · obtain ⟨u, rfl, rfl⟩ := lambda_of_substitute hlambda
      obtain ⟨r, hr, rfl⟩ := ihbody names u rfl ht.body hs
      refine ⟨r, .body hr, ?_⟩
      rw [List.length_append, List.length_singleton, Nat.add_assoc, Nat.add_comm 1]
    · rw [define_of_substitute hdefine] at ht
      exact (ht [] _ _ _ (.here _)).elim

theorem DefinesNothing.substitute {t : Tree} (ht : t.DefinesNothing) (v : Value) (level : Nat) :
    (t.substitute v level).DefinesNothing := by
  intro lists name names body hdefine
  obtain ⟨u, hu, heq⟩ := Occurs.of_substitute ht hdefine
  rw [define_of_substitute heq.symm] at hu
  exact ht _ _ _ _ hu

/-- A reference that is there after a step was there before, a position further on if it is to the
function of the step. -/
theorem parameter_of_substitute {v : Value} {level depth index : Nat} {t : Tree}
    (h : t.substitute v level = .parameter depth index) :
    t = .parameter depth (if depth = level then index + 1 else index) := by
  cases t with
  | parameter depth' index' =>
    by_cases hdepth : depth' = level
    · cases index' with
      | zero => simp [Tree.substitute, hdepth] at h
      | succ index' =>
        simp only [Tree.substitute, if_pos hdepth, parameter.injEq] at h
        rw [if_pos (h.1 ▸ hdepth), h.1, h.2]
    · simp only [Tree.substitute, if_neg hdepth, parameter.injEq] at h
      rw [if_neg (h.1 ▸ hdepth), h.1, h.2]
  | _ => cases h

end Tree

namespace Closure

/-! ## Functions -/

/-- A function with its first parameters fixed, all at once. -/
def supply (vs : List Value) (c : Closure) : Closure :=
  .mk (c.arity - vs.length) (c.body.supply vs 0) c.captured c.name

theorem supply_nil (c : Closure) : c.supply [] = c := by
  obtain ⟨arity, body, captured, name⟩ := c
  exact congrArg (Closure.mk arity · captured name) (body.supply_nil 0)

theorem supply_cons {c c' : Closure} {v : Value} (h : c.curry? v = some c') (vs : List Value) :
    c.supply (v :: vs) = c'.supply vs := by
  obtain ⟨arity, body, captured, name⟩ := c
  cases arity with
  | zero => cases h
  | succ n =>
    cases h
    simp only [supply, arity, Closure.body, Closure.captured, Closure.name, List.length_cons,
      Tree.supply_cons, Nat.add_sub_add_right]

theorem exists_curry? {c : Closure} (h : 0 < c.arity) (v : Value) :
    ∃ c', c.curry? v = some c' ∧ c'.arity + 1 = c.arity := by
  obtain ⟨arity, body, captured, name⟩ := c
  cases arity with
  | zero => exact absurd h (Nat.lt_irrefl 0)
  | succ n => exact ⟨_, rfl, rfl⟩

theorem definesNothing_curry? {c c' : Closure} {v : Value} (hc : c.body.DefinesNothing)
    (h : c.curry? v = some c') : c'.body.DefinesNothing := by
  obtain ⟨arity, body, captured, name⟩ := c
  cases arity with
  | zero => cases h
  | succ n =>
    cases h
    exact Tree.DefinesNothing.substitute hc v 0

theorem isWellScoped_curry? {c c' : Closure} {v : Value} (hc : c.IsWellScoped)
    (hdefines : c.body.DefinesNothing) (h : c.curry? v = some c') : c'.IsWellScoped := by
  obtain ⟨arity, body, captured, name⟩ := c
  cases arity with
  | zero => cases h
  | succ n =>
    cases h
    intro lists depth index hoccurs
    obtain ⟨u, hu, heq⟩ := Tree.Occurs.of_substitute hdefines hoccurs
    rw [Tree.parameter_of_substitute heq.symm, Nat.zero_add] at hu
    obtain ⟨hdepth, hlists, hown⟩ := hc _ _ _ hu
    refine ⟨hdepth, fun names hnames ↦ ?_, fun hlength ↦ ?_⟩
    · have hlt := (List.getElem?_eq_some_iff.1 hnames).1
      have := hlists names hnames
      rwa [if_neg (Nat.ne_of_lt hlt)] at this
    · have := hown hlength
      rw [if_pos hlength] at this
      exact Nat.lt_of_succ_lt_succ this

end Closure

theorem Builtin.curryOf_eq_pure {c c' : Closure} {v : Value} (h : c.curry? v = some c') :
    curryOf (.closure c) v = pure (.closure c') := by
  simp only [curryOf, h]

/-- A function without parameters has none to fix. -/
theorem Builtin.curryOf_of_no_parameters {c : Closure} (h : c.arity = 0) (v : Value)
    (s : Session) : ∃ stop, curryOf (.closure c) v s = .error stop s ∧
      ∀ text, s.heap.describe (.closure c) = .ok text →
        stop = .fault (.badCallOn "cannot curry a function with no parameters" text) := by
  have hnone : c.curry? v = none := by
    obtain ⟨arity, body, captured, name⟩ := c
    obtain rfl : arity = 0 := h
    rfl
  have hcurry : curryOf (.closure c) v s =
      (Action.ofStop (s.heap.describe (.closure c)) >>= fun text ↦
        Action.fail (.badCallOn "cannot curry a function with no parameters" text)) s := by
    simp only [curryOf, hnone]
    rfl
  cases hdescribe : s.heap.describe (.closure c) with
  | ok text =>
    rw [hdescribe] at hcurry
    exact ⟨_, hcurry, fun text' htext ↦ by cases htext; rfl⟩
  | error stop =>
    rw [hdescribe] at hcurry
    exact ⟨stop, hcurry, fun text htext ↦ by cases htext⟩

namespace Closure

/-- What every step keeps holds of a function whose first parameters are fixed. -/
theorem supply_keeps {p : Closure → Prop} {vs : List Value}
    (hstep : ∀ c c' : Closure, ∀ v ∈ vs, c.curry? v = some c' → p c → p c') {c : Closure}
    (hvs : vs.length ≤ c.arity) (hc : p c) : p (c.supply vs) := by
  induction vs generalizing c with
  | nil => rwa [supply_nil]
  | cons v vs ih =>
    rw [List.length_cons] at hvs
    obtain ⟨c', hcurry, harity⟩ := exists_curry? (by omega : 0 < c.arity) v
    rw [supply_cons hcurry]
    refine ih (fun d d' w hw ↦ hstep d d' w (List.mem_cons_of_mem v hw)) (by omega) ?_
    exact hstep c c' v (List.mem_cons_self ..) hcurry hc

theorem foldlM_curryOf {vs : List Value} {c : Closure} (hvs : vs.length ≤ c.arity) :
    vs.foldlM Builtin.curryOf (.closure c) = (pure (.closure (c.supply vs)) : Action Value) := by
  induction vs generalizing c with
  | nil => rw [supply_nil, List.foldlM_nil]
  | cons v vs ih =>
    rw [List.length_cons] at hvs
    obtain ⟨c', hcurry, harity⟩ := exists_curry? (by omega : 0 < c.arity) v
    rw [List.foldlM_cons, Builtin.curryOf_eq_pure hcurry, pure_bind, supply_cons hcurry]
    exact ih (by omega)

/-- The functions that a reachable session keeps are resolved. -/
theorem definesNothing_of_stores {past : List Execution} {s : Session}
    (h : Session.Reachable past s) {v : Value} (hv : s.Stores v) {c : Closure} (hc : v.Has c) :
    c.body.DefinesNothing := by
  have hscoped : v.Scoped noLength :=
    Session.good_of_stores (W := LineBasic.loose) (fun _ ↦ trivial) h.loose.2 hv
  exact (scoped_iff.1 (hscoped.of_has hc)).1.definesNothing

/-- Fixing the parameters of a function one after the other puts all the values into its body at
once.  A well-scoped function in which no other is defined becomes such a function again, and the
functions that a reachable session keeps are such functions.  A function without parameters has none
to fix. -/
theorem curry_isSubstitution :
    (∀ past s, Session.Reachable past s → ∀ v, s.Stores v → ∀ c, v.Has c →
      c.IsWellScoped ∧ c.body.DefinesNothing) ∧
    (∀ (c : Closure) (vs : List Value), vs.length ≤ c.arity →
      vs.foldlM Builtin.curryOf (.closure c) = (pure (.closure (c.supply vs)) : Action Value) ∧
      (c.IsWellScoped → c.body.DefinesNothing →
        (c.supply vs).IsWellScoped ∧ (c.supply vs).body.DefinesNothing) ∧
      ∀ bound, c.Scoped bound → (∀ v ∈ vs, v.Scoped bound) → (c.supply vs).Scoped bound) ∧
    ∀ d : Closure, d.arity = 0 → ∀ v s, ∃ stop,
      Builtin.curryOf (.closure d) v s = .error stop s ∧
      ∀ text, s.heap.describe (.closure d) = .ok text →
        stop = .fault (.badCallOn "cannot curry a function with no parameters" text) := by
  refine ⟨fun past s h v hv c hc ↦ ?_,
    fun c vs hvs ↦ ⟨foldlM_curryOf hvs, fun hc hdefines ↦ ?_, fun bound hscoped hvalues ↦ ?_⟩,
    fun d hd v s ↦ Builtin.curryOf_of_no_parameters hd v s⟩
  · exact ⟨h.isWellScoped_of_stores hv hc, definesNothing_of_stores h hv hc⟩
  · refine supply_keeps (p := fun d ↦ d.IsWellScoped ∧ d.body.DefinesNothing) ?_ hvs ⟨hc, hdefines⟩
    intro d d' v _ hcurry ⟨hd, hdefines⟩
    exact ⟨isWellScoped_curry? hd hdefines hcurry, definesNothing_curry? hdefines hcurry⟩
  · refine supply_keeps (fun d d' v hv hcurry hd ↦ ?_) hvs hscoped
    exact scoped_curry? hd (hvalues v hv) hcurry

/-- Of three parameters two are fixed.  The body refers to the second and the third from inside a
function, to the parameter of that function, and to a captured frame, and it holds a function with
references of the same numbers. -/
theorem curry_isSubstitution_inside :
    let held := Value.closure (.mk 2 (.binary .plus (.parameter 0 0) (.parameter 0 1)) [] "HELD")
    let body := Tree.lambda ["X"] (.array [.parameter 1 0, .parameter 1 2, .parameter 0 0,
      .parameter 2 0, .value held])
    let c := Closure.mk 3 body [[.null]] "F"
    let vs := [held, Value.string "B"]
    c.IsWellScoped ∧ c.body.DefinesNothing ∧ vs.length ≤ c.arity ∧
      c.supply vs = .mk 1 (.lambda ["X"] (.array [.value held, .parameter 1 0, .parameter 0 0,
        .parameter 2 0, .value held])) [[.null]] "F" ∧
      vs.foldlM Builtin.curryOf (.closure c) = (pure (.closure (c.supply vs)) : Action Value) ∧
      (c.supply vs).IsWellScoped := by
  intro held body c vs
  have hscoped : c.Scoped noLength := by
    simp [c, body, held, Closure.Scoped, Tree.ScopedIn, Tree.AllScopedIn, Frame.AllScoped,
      Value.AllScoped, Value.Scoped, InScope, noLength]
  have hc : c.IsWellScoped := hscoped.isWellScoped
  have hdefines : c.body.DefinesNothing := (scoped_iff.1 hscoped).1.definesNothing
  have hvs : vs.length ≤ c.arity := by decide
  obtain ⟨hcurry, hkeeps, -⟩ := curry_isSubstitution.2.1 c vs hvs
  exact ⟨hc, hdefines, hvs, rfl, hcurry, (hkeeps hc hdefines).1⟩

end Closure

end LineBasic
