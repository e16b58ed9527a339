import LineBasic.Evaluation
import LineBasic.Proofs.Detached.Statements
import Mathlib.Data.List.Forall2

/-!
# Comparing computations

Two statements may be executed at different sites, enter functions in different ways, or start in
different sessions.  A comparison says which computations correspond: detached ones correspond to
themselves, and what is built in the same way of corresponding parts corresponds again.  What is
known of the few builtins that are not detached is part of the comparison, and of the jumps that
the computations come to, only that their targets correspond.

A comparison need not be one of two runs: what is true of all that is built of certain parts is
compared with itself.

* `Operand.Same`, `Loop.Same` — operands and open loops that correspond.
* `Comparison` — computations that correspond.
* `Comparison.bind_same`, `Comparison.mapM`, … — rules that follow.
* `Comparison.gives_invoke` — builtins.
-/

set_option autoImplicit false
namespace LineBasic

/-! ## Operands and loops -/

/-- Two operands that are the same, or jumps to targets that correspond. -/
inductive Operand.Same (targets : Site → Site → Prop) : Operand → Operand → Prop
  | jump {t t' : Site} (h : targets t t') : Same targets (.jump t) (.jump t')
  | other {x : Operand} (h : ∀ t, x ≠ .jump t) : Same targets x x

/-- What jumps do not matter to is the same for operands that correspond. -/
theorem Operand.Same.congr {targets : Site → Site → Prop} {β : Type} {x x' : Operand}
    (h : x.Same targets x') (f : Operand → β) (hf : ∀ t t', f (.jump t) = f (.jump t')) :
    f x' = f x := by
  cases h with
  | jump => exact hf _ _
  | other => rfl

theorem Operand.same_self {targets : Site → Site → Prop} (h : ∀ t, targets t t) (x : Operand) :
    x.Same targets x := by
  cases x with
  | jump t => exact .jump (h t)
  | _ => exact .other nofun

/-- An operand, with nothing said about where a jump leads. -/
def Operand.untargeted : Operand → Operand
  | .jump _ => .jump ⟨typedLine, 0⟩
  | x => x

theorem Operand.untargeted_of_same {targets : Site → Site → Prop} {xs xs' : List Operand}
    (h : List.Forall₂ (Same targets) xs xs') : xs'.map untargeted = xs.map untargeted := by
  induction h with
  | nil => rfl
  | cons hx _ ih => rw [List.map_cons, List.map_cons, ih, hx.congr untargeted fun _ _ ↦ rfl]

/-- Two loops that differ in the site of their heads only. -/
structure Loop.Same (heads : Site → Site → Prop) (l l' : Loop) : Prop where
  name : l'.name = l.name
  source : l'.source = l.source
  head : heads l.head l'.head

/-- What stepping on does, among open loops. -/
def Builtin.nextAmong (b : Builtin) (operands : List Operand) : List Loop → Action Operand
  | [] => Action.fail { kind := .nextWithoutFor, message := "NEXT without FOR" }
  | inner :: outer => do
    checkNamed inner operands
    b.stepLoop inner outer

/-! ## Comparisons -/

/-- The builtins that write to the place that they are given. -/
def Builtin.writes : Builtin → Bool
  | .assign | .read | .input => true
  | _ => false

/-- How computations of statements at two sites are compared. -/
structure Comparison (site site' : Site) where
  /-- The computations that correspond, with what their values have to do with one another. -/
  rel : {α : Type} → (α → α → Prop) → Action α → Action α → Prop
  /-- The sites that loops may be entered at. -/
  heads : Site → Site → Prop
  /-- The sites that jumps may lead to. -/
  targets : Site → Site → Prop
  /-- The builtins that may be called. -/
  permits : Builtin → Bool
  pure : ∀ {α : Type} {Q : α → α → Prop} {a a' : α}, Q a a' → rel Q (pure a) (pure a')
  bind : ∀ {α β : Type} {Q : α → α → Prop} {Q' : β → β → Prop} {x x' : Action α}
    {f f' : α → Action β}, rel Q x x' → (∀ a a', Q a a' → rel Q' (f a) (f' a')) →
      rel Q' (x >>= f) (x' >>= f')
  detached : ∀ {α : Type} {act : Action α}, Detached act → rel Eq act act
  assign : ∀ name v, rel Eq (Action.assign name v) (Action.assign name v)
  /-- Writing to an element of an array. -/
  write : ∀ {b : Builtin}, b.writes = true → permits b = true → ∀ base way index name v,
    rel Eq ((Operand.element base way index name).store v b.name)
      ((Operand.element base way index name).store v b.name)
  /-- Looking at the frames in force. -/
  frames : ∀ {α : Type} {Q : α → α → Prop} (f f' : List Frame → Action α),
    (∀ frames, rel Q (f frames) (f' frames)) →
      rel Q (do f (← get).binders.frames) (do f' (← get).binders.frames)
  inCall : ∀ {act act' : Action Value} (c : Closure) (args : Frame), rel Eq act act' →
    rel Eq (Action.inCall c args act) (Action.inCall c args act')
  /-- Looking at the open loops. -/
  loops : ∀ {α : Type} {Q : α → α → Prop} (f f' : List Loop → Action α),
    (∀ ls ls', List.Forall₂ (Loop.Same heads) ls ls' → rel Q (f ls) (f' ls')) →
      rel Q (do f (← get).loops) (do f' (← get).loops)
  putLoops : ∀ (ls ls' : List Loop), List.Forall₂ (Loop.Same heads) ls ls' →
    rel Eq (modify fun s ↦ { s with loops := ls } : Action Unit)
      (modify fun s ↦ { s with loops := ls' })
  head : heads site site'
  next : ∀ {a b : Site}, heads a b → targets a.next b.next
  finish : targets ⟨Builtin.lastLine, 0⟩ ⟨Builtin.lastLine, 0⟩
  /-- Finding the line that a jump leads to. -/
  line : permits .goto = true ∨ permits .gosub = true → ∀ (b : Builtin) x,
    rel (fun n n' ↦ targets ⟨n, 0⟩ ⟨n', 0⟩) (b.targetLine x) (b.targetLine x)
  goSub : permits .gosub = true →
    rel Eq (modify fun s ↦ { s with returns := site.next :: s.returns } : Action Unit)
      (modify fun s ↦ { s with returns := site'.next :: s.returns })
  comeBack : permits .comeBack = true →
    rel (Operand.Same targets) Builtin.comeBackOf Builtin.comeBackOf
  label : permits .label = true → ∀ x,
    rel (Operand.Same targets) (Builtin.labelOf site x) (Builtin.labelOf site' x)
  resolve : permits .resolve = true → site'.line = site.line
  random : permits .random = true → ∀ v,
    rel Eq (Builtin.random.randomOf v) (Builtin.random.randomOf v)
  collectData : permits .data = true → ∀ values,
    rel Eq (Builtin.dataOf values) (Builtin.dataOf values)
  nextDatum : rel Eq Builtin.nextDatum Builtin.nextDatum
  restore : rel Eq Builtin.restoreOf Builtin.restoreOf
  clear : rel Eq Builtin.clearOf Builtin.clearOf

namespace Comparison

variable {site site' : Site} (C : Comparison site site') {α β : Type}

/-- Computations of operands that correspond. -/
abbrev Gives (act act' : Action Operand) : Prop :=
  C.rel (Operand.Same C.targets) act act'

/-- Two ways of entering functions that correspond. -/
abbrev Enters (enter enter' : Closure → List Value → Action Value) : Prop :=
  ∀ c args, C.rel Eq (enter c args) (enter' c args)

/-- Two computations that there may be, or neither. -/
inductive Rel? (Q : α → α → Prop) : Option (Action α) → Option (Action α) → Prop
  | none : Rel? Q none none
  | some {act act' : Action α} (h : C.rel Q act act') : Rel? Q (some act) (some act')

variable {C}

/-! ## Rules -/

/-- Computations whose values are the same go on in the same way. -/
theorem bind_same {Q : β → β → Prop} {x x' : Action α} {f f' : α → Action β}
    (hx : C.rel Eq x x') (hf : ∀ a, C.rel Q (f a) (f' a)) : C.rel Q (x >>= f) (x' >>= f') :=
  C.bind hx fun a _ h ↦ h ▸ hf a

/-- Computations of operands go on in a way that jumps do not matter to. -/
theorem Gives.bind {Q : β → β → Prop} {act act' : Action Operand} {f f' : Operand → Action β}
    (h : C.Gives act act') (hjump : ∀ t t', f' (.jump t) = f' (.jump t'))
    (hf : ∀ x, C.rel Q (f x) (f' x)) : C.rel Q (act >>= f) (act' >>= f') :=
  C.bind h fun x _ hx ↦ hx.congr f' hjump ▸ hf x

theorem same (a : α) : C.rel Eq (Pure.pure a) (Pure.pure a) :=
  C.pure rfl

theorem value (v : Value) : C.Gives (Pure.pure (.value v)) (Pure.pure (.value v)) :=
  C.pure (.other nofun)

theorem throw {Q : α → α → Prop} (stop : Stop) :
    C.rel Q (MonadExcept.throw stop : Action α) (MonadExcept.throw stop) := by
  have h : C.rel Eq (MonadExcept.throw stop : Action Empty) (MonadExcept.throw stop) :=
    C.detached (.throw stop)
  -- Nothing comes of a stop, so what comes of it may be taken for anything.
  change C.rel Q ((MonadExcept.throw stop : Action Empty) >>= Empty.elim)
    ((MonadExcept.throw stop : Action Empty) >>= Empty.elim)
  exact bind_same h nofun

theorem fail {Q : α → α → Prop} (f : Fault) :
    C.rel Q (Action.fail f : Action α) (Action.fail f : Action α) :=
  throw _

/-- Reading the session: what is done with it may not depend on what detached actions leave
aside, and on what there was before. -/
theorem get {Q : α → α → Prop} {f f' : Session → Action α} (hsame : ∀ s, f (Session.bare s) = f s)
    (hsame' : ∀ s, f' (Session.bare s) = f' s) (h : ∀ s, C.rel Q (f s) (f' s)) :
    C.rel Q (MonadState.get >>= f) (MonadState.get >>= f') := by
  have hread : C.rel Eq (do return (← MonadState.get).bare) (do return (← MonadState.get).bare) :=
    C.detached (.get (fun _ ↦ rfl) fun _ ↦ .pure _)
  have hthen := bind_same hread h
  change C.rel Q (MonadState.get >>= fun s ↦ f s.bare)
    (MonadState.get >>= fun s ↦ f' s.bare) at hthen
  simpa only [hsame, hsame'] using hthen

theorem ite {Q : α → α → Prop} {c : Prop} [Decidable c] {x x' y y' : Action α}
    (hx : C.rel Q x x') (hy : C.rel Q y y') :
    C.rel Q (if c then x else y) (if c then x' else y') := by
  split
  · exact hx
  · exact hy

theorem mapM {γ : Type} {f f' : γ → Action α} (h : ∀ c, C.rel Eq (f c) (f' c)) (cs : List γ) :
    C.rel Eq (cs.mapM f) (cs.mapM f') := by
  induction cs with
  | nil =>
    rw [List.mapM_nil, List.mapM_nil]
    exact same []
  | cons c cs ih =>
    rw [List.mapM_cons, List.mapM_cons]
    exact bind_same (h c) fun _ ↦ bind_same ih fun _ ↦ same _

theorem foldlM {γ : Type} {f f' : α → γ → Action α} (h : ∀ a c, C.rel Eq (f a c) (f' a c))
    (start : α) (cs : List γ) : C.rel Eq (cs.foldlM f start) (cs.foldlM f' start) := by
  induction cs generalizing start with
  | nil => exact same start
  | cons c cs ih =>
    rw [List.foldlM_cons, List.foldlM_cons]
    exact bind_same (h start c) fun a ↦ ih a

theorem filterM {f f' : α → Action Bool} (h : ∀ a, C.rel Eq (f a) (f' a)) (as : List α) :
    C.rel Eq (as.filterM f) (as.filterM f') := by
  have haux : ∀ found, C.rel Eq (as.filterAuxM f found) (as.filterAuxM f' found) := by
    induction as with
    | nil => exact fun found ↦ same found
    | cons a as ih =>
      intro found
      rw [List.filterAuxM, List.filterAuxM]
      exact bind_same (h a) fun _ ↦ ih _
  exact bind_same (haux []) fun _ ↦ same _

/-- Computations of operands go on to their values. -/
theorem Gives.resolve {Q : β → β → Prop} {act act' : Action Operand} {f f' : Value → Action β}
    (h : C.Gives act act') (hf : ∀ v, C.rel Q (f v) (f' v)) :
    C.rel Q (do f (← (← act).resolve)) (do f' (← (← act').resolve)) :=
  h.bind (fun _ _ ↦ rfl) fun x ↦ bind_same (C.detached x.detached_resolve) hf

namespace Rel?

theorem orElse {Q : α → α → Prop} {x x' y y' : Option (Action α)} (hx : C.Rel? Q x x')
    (hy : C.Rel? Q y y') : C.Rel? Q (x <|> y) (x' <|> y') := by
  cases hx with
  | none => exact hy
  | some h => exact .some h

theorem detached {act : Action α} (h : Detached act) : C.Rel? Eq (Option.some act) (.some act) :=
  .some (C.detached h)

theorem same (a : α) : C.Rel? Eq (Option.some (Pure.pure a)) (.some (Pure.pure a)) :=
  .some (Comparison.same a)

end Rel?

/-! ## Builtins on values -/

open Builtin

theorem performOne? {b : Builtin} (hb : C.permits b = true) (v : Value) :
    C.Rel? Eq (b.performOne? site v) (b.performOne? site' v) := by
  have helementary : C.Rel? Eq ((elementary? b).map fun f ↦ b.elementaryOf f v)
      ((elementary? b).map fun f ↦ b.elementaryOf f v) := by
    cases elementary? b with
    | none => exact .none
    | some f => exact .detached (b.detached_elementaryOf f v)
  cases b with
  | negate | positive => exact .detached (.bind (detached_number _ v) fun _ ↦ .pure _)
  | not => exact .same _
  | bitNot => exact .detached (detached_bitNotOf _ v)
  | ret => exact .same _
  | join => exact .detached (detached_joinOf v)
  | random => exact .some (C.random hb v)
  | spaces => exact .detached (detached_spacesOf _ v)
  | chr => exact .detached (detached_chrOf _ v)
  | len => exact .detached (detached_lenOf _ v)
  | head | last => exact .detached (detached_endOf _ _ v)
  | tail | init => exact .detached (detached_cutOf _ _ v)
  | reduce => exact .detached (detached_reduceOf _ v)
  | listOf => exact .detached (detached_listMonadOf _ v)
  | typeOf => exact .same _
  | test => exact .same _
  | optionBase => exact .detached (detached_optionBaseOf _ v)
  | optionDebug => exact .detached (detached_optionDebugOf _ v)
  | optionTrace => exact .detached (detached_optionTraceOf _ v)
  | textFore => exact .detached (detached_textForeOf _ v)
  | textBack => exact .detached (detached_textBackOf _ v)
  | peek => exact .detached (detached_peekOf _ v)
  | printMonad => exact .detached (detached_printMonadOf v)
  | resolve =>
    have hline : resolveOf site' v = resolveOf site v := by
      unfold resolveOf
      rw [C.resolve hb]
    change C.Rel? Eq (some (resolveOf site v)) (some (resolveOf site' v))
    rw [hline]
    exact .detached (detached_resolveOf site v)
  | _ => exact helementary

theorem performNone? (b : Builtin) : C.Rel? Eq b.performNone? b.performNone? := by
  cases b with
  | takeData => exact .some C.nextDatum
  | restore => exact .some C.restore
  | clear => exact .some C.clear
  | readText => exact .detached detached_readTextOf
  | clearScreen => exact .detached detached_clearScreenOf
  | keysDown => exact .detached detached_keysDownOf
  | _ => exact .none

theorem performAny? {b : Builtin} (hb : C.permits b = true) (separators : List Separator)
    (vs : List Value) : C.Rel? Eq (b.performAny? separators vs) (b.performAny? separators vs) := by
  cases b with
  | dim => exact .detached (detached_dimOf _ vs)
  | sequence => exact .same _
  | data => exact .some (C.collectData hb vs)
  | print => exact .detached (detached_printOf false separators vs)
  | emit => exact .detached (detached_printOf true separators vs)
  | _ => exact .none

section
variable {enter enter' : Closure → List Value → Action Value} (henter : C.Enters enter enter')

include henter

theorem call (f : Callable) (args : List Value) :
    C.rel Eq (f.call enter args) (f.call enter' args) := by
  cases f with
  | single c => exact henter c args
  | chain cs => exact foldlM (fun v c ↦ henter c [v]) _ cs

theorem mapOf (b : Builtin) (f list : Value) :
    C.rel Eq (b.mapOf enter f list) (b.mapOf enter' f list) :=
  bind_same (C.detached (b.detached_function f)) fun f ↦
    bind_same (C.detached (b.detached_items list)) fun items ↦
      bind_same (mapM (fun v ↦ call henter f [v]) items) fun _ ↦
        C.detached (Action.detached_newArray _)

theorem foldOf (b : Builtin) (f start list : Value) :
    C.rel Eq (b.foldOf enter f start list) (b.foldOf enter' f start list) :=
  bind_same (C.detached (b.detached_function f)) fun f ↦
    bind_same (C.detached (b.detached_items list)) fun items ↦
      foldlM (fun found v ↦ call henter f [found, v]) start items

theorem filterOf (b : Builtin) (f list : Value) :
    C.rel Eq (b.filterOf enter f list) (b.filterOf enter' f list) :=
  bind_same (C.detached (b.detached_function f)) fun f ↦
    bind_same (C.detached (b.detached_items list)) fun items ↦
      bind_same (filterM (fun v ↦ bind_same (call henter f [v]) fun _ ↦ same _) items) fun _ ↦
        C.detached (Action.detached_newArray _)

theorem applyOf (b : Builtin) (f v : Value) :
    C.rel Eq (b.applyOf enter f v) (b.applyOf enter' f v) :=
  bind_same (C.detached (b.detached_function f)) fun f ↦ call henter f [v]

theorem bindOf (v f : Value) : C.rel Eq (bindOf enter v f) (bindOf enter' v f) := by
  unfold Builtin.bindOf
  cases hheld : unwrap? v with
  | none => exact C.detached (.bind (Action.detached_typed _) fun _ ↦ .fail _)
  | some held =>
    cases f.callable? with
    | none => exact C.detached (.bind (Action.detached_typed _) fun _ ↦ .fail _)
    | some g =>
      have hresult : ∀ result, Detached (if isMonad result = true then Pure.pure result else do
          Action.fail (.badCallOn "right-hand function did not return a monad"
            (← Action.typed result)) : Action Value) := fun result ↦
        .ite (.pure _) (.bind (Action.detached_typed _) fun _ ↦ .fail _)
      exact bind_same (C.detached (detached_of_unwrap? hheld)) fun w ↦
        bind_same (call henter g [w]) fun result ↦ C.detached (hresult result)

theorem performTwo? (b : Builtin) (v w : Value) :
    C.Rel? Eq (b.performTwo? enter v w) (b.performTwo? enter' v w) := by
  cases b with
  | plus => exact .detached (detached_plusOf v w)
  | minus | times | min | max => exact .detached (detached_arithmetic _ _ v w)
  | divide => exact .detached (detached_divideOf _ v w)
  | quotient => exact .detached (detached_quotientOf _ v w)
  | modulo => exact .detached (detached_moduloOf _ v w)
  | power => exact .detached (detached_powerOf _ v w)
  | equal | unequal | unlike => exact .detached (.bind (detached_areEqual v w) fun _ ↦ .pure _)
  | less | greater | lessEq | eqLess | greaterEq | eqGreater =>
    exact .detached (detached_compared _ _ _ v w)
  | shiftLeft | shiftRight => exact .detached (detached_shift _ _ v w)
  | bitAnd | bitOr | bitXor => exact .detached (detached_bitwise _ _ v w)
  | and | or => exact .detached (detached_logical _ _ v w)
  | «to» => exact .detached (detached_rangeOf _ v w)
  | step => exact .detached (detached_stepOf _ v w)
  | cons => exact .detached (detached_consOf v w)
  | snoc => exact .detached (detached_snocOf v w)
  | concat => exact .detached (detached_concatOf v w)
  | compose => exact .detached (detached_composeOf _ v w)
  | apply => exact .some (applyOf henter _ v w)
  | curry => exact .detached (detached_curryOf v w)
  | bind => exact .some (bindOf henter v w)
  | andThen => exact .detached (detached_thenOf v w)
  | left => exact .detached (detached_leftOf _ v w)
  | right => exact .detached (detached_rightOf _ v w)
  | map => exact .some (mapOf henter _ v w)
  | filter => exact .some (filterOf henter _ v w)
  | moveCursor => exact .detached (detached_moveCursorOf _ v w)
  | poke => exact .detached (detached_pokeOf _ v w)
  | _ => exact .none

theorem perform? {b : Builtin} (hb : C.permits b = true) (separators : List Separator)
    (vs : List Value) :
    C.Rel? Eq (b.perform? enter site separators vs) (b.perform? enter' site' separators vs) := by
  refine .orElse (performAny? hb separators vs) ?_
  split
  · exact .none
  · exact .none
  · exact .detached (detached_midOf _ _ _ _)
  · exact .some (foldOf henter _ _ _ _)
  · exact .detached (detached_plotOf _ _ _ _)
  · exact performNone? b
  · exact performOne? hb _
  · exact performTwo? henter b _ _
  · exact .none

end

/-! ## Assignments -/

theorem assignment (name : String) (v : Value) :
    C.Gives (Pure.pure (.assignment name v)) (Pure.pure (.assignment name v)) :=
  C.pure (.other nofun)

section
variable {b : Builtin} (hwrites : b.writes = true) (hb : C.permits b = true)

include hwrites hb

theorem store (target : Operand) (v : Value) :
    C.rel Eq (target.store v b.name) (target.store v b.name) := by
  cases target with
  | reference name => exact bind_same (C.assign name v) fun _ ↦ same _
  | element base way index name => exact C.write hwrites hb base way index name v
  | inexact base way name => exact C.detached (Operand.detached_miss base way)
  | _ => exact bind_same (C.detached (Operand.detached_typed _)) fun _ ↦ fail _

theorem assignOf (target operand : Operand) :
    C.Gives (b.assignOf target operand) (b.assignOf target operand) :=
  bind_same (C.detached operand.detached_resolve) fun v ↦
    bind_same (store hwrites hb target (nameFunction target v)) fun _ ↦ assignment _ _

theorem readOf (target : Operand) : C.Gives (b.readOf target) (b.readOf target) :=
  bind_same C.nextDatum fun v ↦ bind_same (store hwrites hb target v) fun _ ↦ assignment _ _

theorem inputOf (target : Operand) : C.Gives (b.inputOf target) (b.inputOf target) :=
  bind_same (C.detached (Action.detached_print _)) fun _ ↦
    bind_same (C.detached Action.detached_readLine) fun line ↦
      bind_same (store hwrites hb target (inputValue line)) fun _ ↦ assignment _ _

end

theorem memberOf (target operand : Operand) :
    C.Gives (memberOf target operand) (memberOf target operand) := by
  unfold Builtin.memberOf
  split
  · exact bind_same (C.detached operand.detached_resolve) fun _ ↦ assignment _ _
  · exact bind_same (C.detached (Operand.detached_typed _)) fun _ ↦ fail _

/-! ## Loops -/

theorem enterLoop (key : String) (first : Value) (source : LoopSource) :
    C.Gives (enterLoop key first source site) (enterLoop key first source site') := by
  have hput (ls ls' : List Loop) (h : List.Forall₂ (Loop.Same C.heads) ls ls') :=
    C.putLoops (⟨key, source, site⟩ :: ls) (⟨key, source, site'⟩ :: ls') (.cons ⟨rfl, rfl, C.head⟩ h)
  exact bind_same (C.assign key first) fun _ ↦ bind_same (C.loops _ _ hput) fun _ ↦ value _

theorem loopOf (b : Builtin) (operand : Operand) :
    C.Gives (b.loopOf site operand) (b.loopOf site' operand) := by
  refine bind_same (C.detached (b.detached_loopHead operand)) fun ⟨key, v⟩ ↦ ?_
  cases v with
  | generator g => exact enterLoop key _ _
  | _ => exact bind_same (C.detached (Action.detached_typed _)) fun _ ↦ fail _

theorem loopOverOf (b : Builtin) (operand : Operand) :
    C.Gives (b.loopOverOf site operand) (b.loopOverOf site' operand) :=
  bind_same (C.detached (b.detached_loopHead operand)) fun head ↦
    bind_same (C.detached (b.detached_items head.2)) fun _ ↦ enterLoop _ _ _

theorem leaveLoop {outer outer' : List Loop}
    (h : List.Forall₂ (Loop.Same C.heads) outer outer') :
    C.Gives (leaveLoop outer) (leaveLoop outer') :=
  bind_same (C.putLoops _ _ h) fun _ ↦ value _

theorem stepLoop (b : Builtin) {inner inner' : Loop} {outer outer' : List Loop}
    (h : inner.Same C.heads inner') (houter : List.Forall₂ (Loop.Same C.heads) outer outer') :
    C.Gives (b.stepLoop inner outer) (b.stepLoop inner' outer') := by
  obtain ⟨key, source, head⟩ := inner
  obtain ⟨key', source', head'⟩ := inner'
  obtain ⟨rfl, rfl, hhead⟩ := h
  have hgo (v : Value) : C.Gives
      (do Action.assign key' v; return .jump head.next)
      (do Action.assign key' v; return .jump head'.next) :=
    bind_same (C.assign key' v) fun _ ↦ C.pure (.jump (C.next hhead))
  have hput (rest : LoopSource) := C.putLoops (⟨key', rest, head⟩ :: outer)
    (⟨key', rest, head'⟩ :: outer') (.cons ⟨rfl, rfl, hhead⟩ houter)
  cases source' with
  | range g =>
    refine bind_same (C.detached (Action.detached_lookup key')) fun current ↦
      bind_same (C.detached (b.detached_number current)) fun x ↦ ?_
    dsimp only
    refine bind_same (hput (.range (g.advance x).1)) fun _ ↦ ?_
    cases (g.advance x).2 with
    | some y => exact hgo _
    | none => exact bind_same (C.assign key' _) fun _ ↦ leaveLoop houter
  | rest values =>
    cases values with
    | nil => exact leaveLoop houter
    | cons v more => exact bind_same (hput (.rest more)) fun _ ↦ hgo v

theorem nextOf (b : Builtin) (operands : List Operand) :
    C.Gives (b.nextOf operands) (b.nextOf operands) := by
  refine C.loops (b.nextAmong operands) (b.nextAmong operands) fun ls ls' h ↦ ?_
  cases h with
  | nil => exact fail _
  | @cons inner inner' outer outer' hinner houter =>
    have hnamed : checkNamed inner' operands = checkNamed inner operands := by
      cases operands with
      | nil => rfl
      | cons named _ =>
        unfold checkNamed namesOther wrongLoop
        rw [hinner.name]
    have hcheck : C.rel Eq (checkNamed inner operands) (checkNamed inner' operands) := by
      rw [hnamed]
      exact C.detached (detached_checkNamed inner operands)
    exact bind_same hcheck fun _ ↦ stepLoop b hinner houter

/-! ## Jumps -/

theorem gotoOf {b : Builtin} (h : C.permits .goto = true) (operand : Operand) :
    C.Gives (b.gotoOf operand) (b.gotoOf operand) :=
  C.bind (C.line (.inl h) b operand) fun _ _ hline ↦ C.pure (.jump hline)

theorem gosubOf {b : Builtin} (h : C.permits .gosub = true) (operand : Operand) :
    C.Gives (b.gosubOf site operand) (b.gosubOf site' operand) :=
  C.bind (C.line (.inr h) b operand) fun _ _ hline ↦
    bind_same (C.goSub h) fun _ ↦ C.pure (.jump hline)

/-! ## Builtins on operands -/

theorem resolveVarOf (operand : Operand) :
    C.Gives (resolveVarOf operand) (resolveVarOf operand) := by
  unfold Builtin.resolveVarOf
  split
  · rename_i name
    refine get (fun _ ↦ rfl) (fun _ ↦ rfl) fun s ↦ ?_
    cases s.vars.lookup? name with
    | some v =>
      exact bind_same (C.detached (Action.detached_describe v)) fun _ ↦
        bind_same (C.detached (Action.detached_print _)) fun _ ↦ value _
    | none => exact fail _
  · exact bind_same (C.detached (Operand.detached_typed _)) fun _ ↦ fail _

theorem performRaw? {b : Builtin} (hb : C.permits b = true) (operands : List Operand) :
    C.Rel? (Operand.Same C.targets) (b.performRaw? site operands)
      (b.performRaw? site' operands) := by
  unfold Builtin.performRaw?
  split
  · exact .some (assignOf rfl hb _ _)
  · exact .some (memberOf _ _)
  · exact .some (loopOf _ _)
  · exact .some (loopOverOf _ _)
  · exact .some (nextOf _ _)
  · exact .some (gotoOf hb _)
  · exact .some (gosubOf hb _)
  · exact .some (C.comeBack hb)
  · exact .some (C.pure (.jump C.finish))
  · exact .some (readOf rfl hb _)
  · exact .some (C.label hb _)
  · exact .some (inputOf rfl hb _)
  · exact .some (resolveVarOf _)
  · exact .none

end Comparison

/-! ## Calls of builtins -/

/-- No builtin looks at where its operands jump to. -/
theorem Builtin.performRaw?_untargeted (b : Builtin) (site : Site) (operands : List Operand) :
    b.performRaw? site (operands.map Operand.untargeted) = b.performRaw? site operands := by
  match operands with
  | [] => rfl
  | [x] =>
    cases x with
    | jump t => cases b <;> rfl
    | _ => rfl
  | [x, y] =>
    cases b with
    | assign | member => cases x <;> cases y <;> rfl
    | next => cases x <;> rfl
    | _ => rfl
  | x :: y :: z :: more =>
    cases b with
    | next => cases x <;> rfl
    | _ => rfl

theorem Builtin.invoke_untargeted (enter : Closure → List Value → Action Value) (b : Builtin)
    (site : Site) (separators : List Separator) (operands : List Operand) :
    b.invoke enter site separators (operands.map Operand.untargeted) =
      b.invoke enter site separators operands := by
  have hall : Operand.resolveAll (operands.map Operand.untargeted) = Operand.resolveAll operands := by
    unfold Operand.resolveAll
    rw [List.mapM_map]
    congr 1
    funext x
    cases x <;> rfl
  unfold invoke
  rw [List.length_map, b.performRaw?_untargeted, hall]

namespace Comparison

variable {site site' : Site} {C : Comparison site site'}
  {enter enter' : Closure → List Value → Action Value}

/-- Builtins do what corresponds, when they are called on operands that correspond. -/
theorem gives_invoke (henter : C.Enters enter enter') {b : Builtin} (hb : C.permits b = true)
    (separators : List Separator) {operands operands' : List Operand}
    (h : List.Forall₂ (Operand.Same C.targets) operands operands') :
    C.Gives (b.invoke enter site separators operands)
      (b.invoke enter' site' separators operands') := by
  rw [← b.invoke_untargeted enter' site' separators operands', Operand.untargeted_of_same h,
    b.invoke_untargeted]
  refine ite (fail _) ?_
  have hraw := performRaw? hb operands
  generalize b.performRaw? site operands = raw, b.performRaw? site' operands = raw' at hraw
  cases hraw with
  | some hact => exact hact
  | none =>
    refine bind_same (C.detached (Operand.detached_resolveAll operands)) fun vs ↦ ?_
    have hperform := perform? henter hb separators vs
    generalize b.perform? enter site separators vs = act,
      b.perform? enter' site' separators vs = act' at hperform
    cases hperform with
    | some hact => exact bind_same hact fun _ ↦ value _
    | none => exact fail _

end Comparison
end LineBasic
