import LineBasic.Heap
import LineBasic.Proofs.Results
import LineBasic.Settings.Quantity
import LineBasic.Value.Same
import LineBasic.Value.Text

/-!
# How texts and comparisons fail

The text of a value, and the comparison of two values, may fail: over a number literal that has no
text, or over arrays that contain themselves, and over nothing else.  Only what they ask of arrays
is given to them from outside, so it is enough to look there.
-/

set_option autoImplicit false
namespace LineBasic

/-- Whether a stop is a fault of the program. -/
def Stop.IsFault : Stop → Prop
  | .fault _ => True
  | _ => False

instance : DecidablePred Stop.IsFault
  | .fault _ => isTrue trivial
  | .mishap _ | .endlessNesting | .endOfInput | .staleArray | .staleSubscript | .misfit
  | .outOfFuel => isFalse id

theorem Stop.IsFault.exists_eq {stop : Stop} (h : stop.IsFault) : ∃ f, stop = .fault f := by
  cases stop with
  | fault f => exact ⟨f, rfl⟩
  | _ => exact h.elim

/-- Failures that are no faults of the program. -/
abbrev Faultless {α : Type} (x : Except Stop α) : Prop :=
  OnlyFails (fun stop ↦ ¬ stop.IsFault) x

/-- Whether a stop lies in the values at hand: in a number, or in arrays that contain themselves. -/
def Stop.IsInherent : Stop → Prop
  | .mishap _ | .endlessNesting => True
  | _ => False

/-- Failures that lie in the values at hand. -/
abbrev Inherent {α : Type} (x : Except Stop α) : Prop :=
  OnlyFails Stop.IsInherent x

theorem Inherent.faultless {α : Type} {x : Except Stop α} (h : Inherent x) : Faultless x := by
  refine h.mono fun stop hstop hfault ↦ ?_
  cases stop with
  | fault f => exact hstop
  | _ => exact hfault

/-! ## Texts -/

theorem inherent_literal (x : Float) : Inherent (literal x) := by
  rw [literal]
  split
  · exact .ok _
  · exact .error trivial

section
set_option linter.unusedSectionVars false
variable {array : Nat → Except Stop String} (harray : ∀ place, Inherent (array place))

include harray

mutual

theorem inherent_valueText : ∀ v : Value, Inherent (valueText array v)
  | .number _ | .string _ | .boolean _ | .null | .generator _ => .ok _
  | .array place => harray place
  | .closure c => inherent_closureText c
  | .listMonad elements => .bind (inherent_valueTexts elements) fun _ ↦ .ok _
  | .memoMonad held => .bind (inherent_valueText held) fun _ ↦ .ok _
  | .composed functions => .bind (inherent_closureTexts functions) fun _ ↦ .ok _

theorem inherent_closureText : ∀ c : Closure, Inherent (closureText array c)
  | .mk _ body _ _ => .bind (inherent_treeText body) fun _ ↦ .ok _

theorem inherent_treeText : ∀ t : Tree, Inherent (treeText array t)
  | .null | .string _ | .boolean _ | .ident _ | .params _ | .parameter _ _ => .ok _
  | .number x => inherent_literal x
  | .unary _ operand => .bind (inherent_treeText operand) fun _ ↦ .ok _
  | .binary _ left right =>
    .bind (inherent_treeText left) fun _ ↦ .bind (inherent_treeText right) fun _ ↦ .ok _
  | .call _ args _ => .bind (inherent_treeTexts args) fun _ ↦ .ok _
  | .apply callee args _ =>
    .bind (inherent_treeText callee) fun _ ↦ .bind (inherent_treeTexts args) fun _ ↦ .ok _
  | .array elements => .bind (inherent_treeTexts elements) fun _ ↦ .ok _
  | .lambda _ body => .bind (inherent_treeText body) fun _ ↦ .ok _
  | .branch condition yes no =>
    .bind (inherent_treeText condition) fun _ ↦ .bind (inherent_treeText yes) fun _ ↦
      .bind (inherent_elseText no) fun _ ↦ .ok _
  | .select _ test targets =>
    .bind (inherent_treeTexts targets) fun _ ↦ .bind (inherent_treeText test) fun _ ↦ .ok _
  | .define _ _ body => .bind (inherent_treeText body) fun _ ↦ .ok _
  | .value v => inherent_valueText v

theorem inherent_elseText : ∀ no : Option Tree, Inherent (elseText array no)
  | none => .ok _
  | some no => .bind (inherent_treeText no) fun _ ↦ .ok _

theorem inherent_valueTexts : ∀ vs : List Value, Inherent (valueTexts array vs)
  | [] => .ok _
  | v :: vs => .bind (inherent_valueText v) fun _ ↦ .bind (inherent_valueTexts vs) fun _ ↦ .ok _

theorem inherent_closureTexts : ∀ cs : List Closure, Inherent (closureTexts array cs)
  | [] => .ok _
  | c :: cs =>
    .bind (inherent_closureText c) fun _ ↦ .bind (inherent_closureTexts cs) fun _ ↦ .ok _

theorem inherent_treeTexts : ∀ ts : List Tree, Inherent (treeTexts array ts)
  | [] => .ok _
  | t :: ts => .bind (inherent_treeText t) fun _ ↦ .bind (inherent_treeTexts ts) fun _ ↦ .ok _

end

end

namespace Heap

variable (h : Heap)

theorem inherent_arrayText (allowed place : Nat) : Inherent (h.arrayText allowed place) := by
  induction allowed generalizing place with
  | zero => exact .error trivial
  | succ allowed ih => exact .bind (inherent_valueTexts ih _) fun _ ↦ .ok _

theorem inherent_describe (v : Value) : Inherent (h.describe v) :=
  inherent_valueText (h.inherent_arrayText _) v

theorem inherent_describeTree (t : Tree) : Inherent (h.describeTree t) :=
  inherent_treeText (h.inherent_arrayText _) t

theorem inherent_typed (v : Value) : Inherent (h.typed v) :=
  .bind (h.inherent_describe v) fun _ ↦ .ok _

theorem faultless_describe (v : Value) : Faultless (h.describe v) :=
  (h.inherent_describe v).faultless

theorem faultless_describeTree (t : Tree) : Faultless (h.describeTree t) :=
  (h.inherent_describeTree t).faultless

theorem faultless_typed (v : Value) : Faultless (h.typed v) :=
  (h.inherent_typed v).faultless

end Heap

/-! ## Comparisons -/

section
set_option linter.unusedSectionVars false
variable {arrays : Nat → Nat → Except Stop Bool} (harrays : ∀ p q, Inherent (arrays p q))

include harrays

mutual

theorem inherent_sameValue : ∀ v w : Value, Inherent (sameValue arrays v w)
  | .number _, w | .string _, w | .boolean _, w | .null, w | .generator _, w => by
    cases w <;> exact .ok _
  | .array p, w => by
    cases w with
    | array q => exact .ite (.ok _) (harrays p q)
    | _ => exact .ok _
  | .closure c, w => by
    cases w with
    | closure d => exact inherent_sameClosure c d
    | _ => exact .ok _
  | .listMonad vs, w => by
    cases w with
    | listMonad ws => exact inherent_sameValues vs ws
    | _ => exact .ok _
  | .memoMonad v, w => by
    cases w with
    | memoMonad w => exact inherent_sameValue v w
    | _ => exact .ok _
  | .composed cs, w => by
    cases w with
    | composed ds => exact inherent_sameClosures cs ds
    | _ => exact .ok _

theorem inherent_sameClosure : ∀ c d : Closure, Inherent (sameClosure arrays c d)
  | .mk _ body captured _, .mk _ body' captured' _ =>
    .ite (.ok _) (.bind (inherent_sameTree body body') fun _ ↦
      .ite (.ok _) (inherent_sameFrames captured captured'))

theorem inherent_sameTree : ∀ t u : Tree, Inherent (sameTree arrays t u)
  | .null, u | .number _, u | .string _, u | .boolean _, u | .ident _, u | .params _, u
  | .parameter _ _, u => by
    cases u <;> exact .ok _
  | .unary _ t, u => by
    cases u with
    | unary _ u => exact .ite (inherent_sameTree t u) (.ok _)
    | _ => exact .ok _
  | .binary _ l r, u => by
    cases u with
    | binary _ l' r' =>
      exact .ite (.ok _) (.bind (inherent_sameTree l l') fun _ ↦
        .ite (.ok _) (inherent_sameTree r r'))
    | _ => exact .ok _
  | .call _ ts _, u => by
    cases u with
    | call _ us _ =>
      exact .ite (.ok _) (.bind (inherent_sameTrees ts us) fun _ ↦ .ite (.ok _) (.ok _))
    | _ => exact .ok _
  | .apply t ts _, u => by
    cases u with
    | apply u us _ =>
      exact .bind (inherent_sameTree t u) fun _ ↦
        .ite (.ok _) (.bind (inherent_sameTrees ts us) fun _ ↦ .ite (.ok _) (.ok _))
    | _ => exact .ok _
  | .array ts, u => by
    cases u with
    | array us => exact inherent_sameTrees ts us
    | _ => exact .ok _
  | .lambda _ t, u => by
    cases u with
    | lambda _ u => exact .ite (inherent_sameTree t u) (.ok _)
    | _ => exact .ok _
  | .branch c y n, u => by
    cases u with
    | branch c' y' n' =>
      exact .bind (inherent_sameTree c c') fun _ ↦ .ite (.ok _)
        (.bind (inherent_sameTree y y') fun _ ↦ .ite (.ok _) (inherent_sameElse n n'))
    | _ => exact .ok _
  | .select _ t ts, u => by
    cases u with
    | select _ u us =>
      exact .ite (.ok _) (.bind (inherent_sameTree t u) fun _ ↦
        .ite (.ok _) (inherent_sameTrees ts us))
    | _ => exact .ok _
  | .define _ _ t, u => by
    cases u with
    | define _ _ u => exact .ite (inherent_sameTree t u) (.ok _)
    | _ => exact .ok _
  | .value v, u => by
    cases u with
    | value w => exact inherent_sameValue v w
    | _ => exact .ok _

theorem inherent_sameElse : ∀ no no' : Option Tree, Inherent (sameElse arrays no no')
  | none, none | none, some _ | some _, none => .ok _
  | some t, some u => inherent_sameTree t u

theorem inherent_sameValues : ∀ vs ws : List Value, Inherent (sameValues arrays vs ws)
  | [], [] | [], _ :: _ | _ :: _, [] => .ok _
  | v :: vs, w :: ws =>
    .bind (inherent_sameValue v w) fun _ ↦ .ite (.ok _) (inherent_sameValues vs ws)

theorem inherent_sameFrames :
    ∀ fs gs : List (List Value), Inherent (sameFrames arrays fs gs)
  | [], [] | [], _ :: _ | _ :: _, [] => .ok _
  | f :: fs, g :: gs =>
    .bind (inherent_sameFrames fs gs) fun _ ↦ .ite (.ok _) (inherent_sameValues f g)

theorem inherent_sameClosures : ∀ cs ds : List Closure, Inherent (sameClosures arrays cs ds)
  | [], [] | [], _ :: _ | _ :: _, [] => .ok _
  | c :: cs, d :: ds =>
    .bind (inherent_sameClosure c d) fun _ ↦ .ite (.ok _) (inherent_sameClosures cs ds)

theorem inherent_sameTrees : ∀ ts us : List Tree, Inherent (sameTrees arrays ts us)
  | [], [] | [], _ :: _ | _ :: _, [] => .ok _
  | t :: ts, u :: us =>
    .bind (inherent_sameTree t u) fun _ ↦ .ite (.ok _) (inherent_sameTrees ts us)

end

end

namespace Heap

variable (h : Heap)

theorem inherent_sameArrays (allowed p q : Nat) : Inherent (h.sameArrays allowed p q) := by
  induction allowed generalizing p q with
  | zero => exact .error trivial
  | succ allowed ih => exact .ite (inherent_sameValues ih _ _) (.ok _)

theorem inherent_looselySame (v w : Value) : Inherent (h.looselySame v w) := by
  unfold looselySame
  split
  · exact .ok _
  · exact .ok _
  · exact inherent_sameValue (h.inherent_sameArrays _) v w

theorem faultless_looselySame (v w : Value) : Faultless (h.looselySame v w) :=
  (h.inherent_looselySame v w).faultless

end Heap

/-! ## Quantities -/

namespace Quantity

theorem faultless_compute {α : Type} (onWhole : Int → Int → α) (onReal : Float → Float → α)
    (p q : Quantity) : Faultless (compute onWhole onReal p q) := by
  rw [compute]
  split
  · exact .ok _
  · split
    · exact .ok _
    · exact .error id

/-- Arithmetic fails for want of a number only. -/
theorem onlyFails_compute {α : Type} (onWhole : Int → Int → α) (onReal : Float → Float → α)
    (p q : Quantity) :
    OnlyFails (fun stop ↦ stop = .misfit ∧ (p.real? = none ∨ q.real? = none))
      (compute onWhole onReal p q) := by
  rw [compute]
  split
  · exact .ok _
  · split
    · exact .ok _
    · rename_i hreal
      refine .error ⟨rfl, ?_⟩
      cases hp : p.real? with
      | none => exact .inl rfl
      | some x =>
        cases hq : q.real? with
        | none => exact .inr rfl
        | some y => exact absurd hq (hreal x y hp)

theorem whole?_eq_none {q : Quantity} (h : q.real? = none) : q.whole? = none := by
  cases q with
  | other => rfl
  | _ => cases h

/-- A difference is a number, and an integer if it is one of integers. -/
theorem real?_of_sub {p q r : Quantity} (h : sub p q = .ok r) : r.real? ≠ none := by
  rw [sub, compute] at h
  split at h
  · cases h
    exact Option.some_ne_none _
  · split at h
    · cases h
      exact Option.some_ne_none _
    · cases h

theorem whole?_of_sub {n : Int} {q r : Quantity} (hq : q.whole? ≠ none) (h : sub n q = .ok r) :
    ∃ k, r = whole k := by
  obtain ⟨m, hm⟩ := Option.ne_none_iff_exists'.1 hq
  rw [sub, compute, hm] at h
  exact ⟨_, (Except.ok.inj h).symm⟩

theorem lt_of_position {q : Quantity} {size k : Nat} (h : q.position size = .element k) :
    k < size := by
  have hwhole : ∀ n : Int, position size (whole n) = .element k → k < size := by
    intro n hn
    rw [position_whole] at hn
    split at hn
    · cases hn
      omega
    · cases hn
  cases q with
  | whole n => exact hwhole n h
  | truth b => exact hwhole _ h
  | real x =>
    have hreal : (if 0 ≤ x ∧ x < Number.ofNat size then Position.inexact else .outside) =
      .element k := h
    split at hreal <;> cases hreal
  | other => cases h

theorem faultless_sub (p q : Quantity) : Faultless (sub p q) :=
  faultless_compute _ _ p q

theorem faultless_add (p q : Quantity) : Faultless (add p q) :=
  faultless_compute _ _ p q

theorem faultless_isBelow (p q : Quantity) : Faultless (isBelow p q) :=
  faultless_compute _ _ p q

theorem faultless_start (q : Quantity) : Faultless q.start := by
  unfold start
  split
  · exact .ok _
  · exact .ite (.ok _) (.error id)
  · exact .error id

end Quantity

end LineBasic
