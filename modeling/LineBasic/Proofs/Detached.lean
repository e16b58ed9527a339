import LineBasic.Operand
import LineBasic.Proofs.Keeping

/-!
# Detached actions

Most actions have nothing to do with the frames in force, the calls, loops and subroutines under
way, the stored program, the data that is read or collected, random numbers and traces.  Such an
action does the same whatever these are, and leaves them as they are.  Nor does it matter to it what
was printed before.  Most of these actions also assign no variable and write to no array that there
is: they only make new ones.  There is one rule for each way of building an action.

* `Aside`, `Session.withAside` — all these parts of a session, and a session with others.
* `Past`, `Session.after` — what was printed and traced before.
* `Commutes` — an action that does the same after a change of the session.
* `Apart` — an action that has nothing to do with the parts aside and with the past.
* `Heap.Grows`, `Detached` — such an action that assigns nothing and writes to no array.
* `Detached.bind`, `Detached.get`, … — its rules.
* `Operand.detached_resolve` — reading operands.
-/

set_option autoImplicit false
namespace LineBasic

/-- The parts of a session that few actions have to do with. -/
structure Aside where
  binders : Binders.Stack
  returns : List Site
  loops : List Loop
  program : Program
  data : List Value
  cursor : Nat
  isCollecting : Bool
  random : Number.Random
  traced : List Int

/-- What there was before, as far as it only adds to what there is now. -/
structure Past where
  /-- The text printed. -/
  output : String
  /-- How often the console was polled, counted in rounds after which it answers as before. -/
  rounds : Nat
  /-- The lines traced, the latest first. -/
  traced : List Int

/-- A console that had printed something before. -/
def Console.after (c : Console) (p : Past) : Console :=
  { c with
    output := p.output ++ c.output
    polls := c.polls + p.rounds * c.breakEvery.getD 1 }

theorem Console.print_after (c : Console) (p : Past) (text : String) :
    (c.after p).print text = (c.print text).after p := by
  simp only [print, after, String.append_assoc]

namespace Session

/-- What most actions leave aside. -/
def aside (s : Session) : Aside :=
  { binders := s.binders, returns := s.returns, loops := s.loops, program := s.program
    data := s.data, cursor := s.cursor, isCollecting := s.isCollecting, random := s.random
    traced := s.traced }

/-- The session with other parts that most actions leave aside. -/
def withAside (s : Session) (k : Aside) : Session :=
  { s with
    binders := k.binders, returns := k.returns, loops := k.loops, program := k.program
    data := k.data, cursor := k.cursor, isCollecting := k.isCollecting, random := k.random
    traced := k.traced }

/-- The session with a change of the parts that most actions leave aside. -/
def mapAside (s : Session) (g : Aside → Aside) : Session :=
  s.withAside (g s.aside)

/-- What names stand for: the values of variables, and the lines of labels. -/
def names (s : Session) : Variables × Table String Int :=
  (s.vars, s.labels)

/-- The session with something that happened before. -/
def after (s : Session) (p : Past) : Session :=
  { s with console := s.console.after p, traced := s.traced ++ p.traced }

/-- The session with nothing in the parts that most actions leave aside, and nothing before. -/
def bare (s : Session) : Session :=
  { s with
    binders := .outermost 0, returns := [], loops := [], program := .empty, data := [], cursor := 0
    isCollecting := false, random := .ofSeed 0, traced := []
    console := { s.console with output := "", polls := 0 } }

variable (s : Session) (k : Aside) (p : Past)

@[simp] theorem withAside_aside : s.withAside s.aside = s := rfl

@[simp] theorem bare_vars : s.bare.vars = s.vars := rfl

@[simp] theorem mapAside_labels (g : Aside → Aside) : (s.mapAside g).labels = s.labels := rfl

@[simp] theorem withAside_console : (s.withAside k).console = s.console := rfl

@[simp] theorem bare_withAside : (s.withAside k).bare = s.bare := rfl

@[simp] theorem bare_after : (s.after p).bare = s.bare := rfl

end Session

/-- A heap with all arrays of another one, unchanged. -/
structure Heap.Grows (h h' : Heap) : Prop where
  size : h.size ≤ h'.size
  elements : ∀ place < h.size, h'.elements place = h.elements place

namespace Heap

theorem Grows.refl (h : Heap) : h.Grows h :=
  ⟨Nat.le_refl _, fun _ _ ↦ rfl⟩

theorem Grows.trans {h₁ h₂ h₃ : Heap} (h : h₁.Grows h₂) (h' : h₂.Grows h₃) : h₁.Grows h₃ :=
  ⟨Nat.le_trans h.size h'.size, fun place hplace ↦
    (h'.elements place (Nat.lt_of_lt_of_le hplace h.size)).trans (h.elements place hplace)⟩

theorem grows_alloc (h : Heap) (elements : Array Value) : h.Grows (h.alloc elements).2 where
  size := by simp [alloc, size]
  elements _ := h.elements_alloc_of_lt elements

end Heap

/-- The end of an action, with a change of the session. -/
def atEnd {α : Type} (f : Session → Session) :
    EStateM.Result Stop Session α → EStateM.Result Stop Session α
  | .ok a s => .ok a (f s)
  | .error e s => .error e (f s)

/-- An action that does the same after a change of the session as before it. -/
def Commutes {α : Type} (f : Session → Session) (act : Action α) : Prop :=
  ∀ s, act (f s) = atEnd f (act s)

/-- An action that has nothing to do with the parts of a session that most actions leave aside, and
with what there was before. -/
structure Apart {α : Type} (act : Action α) : Prop where
  run : ∀ k : Aside, Commutes (·.withAside k) act
  after : ∀ p : Past, Commutes (·.after p) act

/-- Such an action that leaves all arrays that there are as they are, and all variables and
labels. -/
structure Detached {α : Type} (act : Action α) : Prop extends Apart act where
  grows : ∀ s, Ends (fun s' ↦ s.heap.Grows s'.heap) (fun _ ↦ True) (fun _ ↦ True) (act s)
  names : ∀ names, Keeps (·.names = names) (fun _ ↦ True) act

section
variable {α β : Type}

theorem Commutes.bind_of_ok {f : Session → Session} {x : Action α} {g : α → Action β}
    (hx : Commutes f x) (hg : ∀ a, (∃ s s', x s = .ok a s') → Commutes f (g a)) :
    Commutes f (x >>= g) := by
  intro s
  change EStateM.bind x g (f s) = atEnd f (EStateM.bind x g s)
  unfold EStateM.bind
  rw [hx s]
  cases hxs : x s with
  | ok a s' => exact hg a ⟨s, s', hxs⟩ s'
  | error e s' => rfl

theorem Commutes.bind {f : Session → Session} {x : Action α} {g : α → Action β}
    (hx : Commutes f x) (hg : ∀ a, Commutes f (g a)) : Commutes f (x >>= g) :=
  hx.bind_of_ok fun a _ ↦ hg a

theorem Commutes.pure {f : Session → Session} (a : α) : Commutes f (pure a : Action α) :=
  fun _ ↦ rfl

/-- Reading what the change leaves as it is. -/
theorem Commutes.get {f : Session → Session} {g : Session → Action α}
    (hsame : ∀ s, g (f s) = g s) (hg : ∀ s, Commutes f (g s)) :
    Commutes f (MonadState.get >>= g) := by
  intro s
  change g (f s) (f s) = atEnd f (g s s)
  rw [hsame]
  exact hg s s

theorem Commutes.modify {f g : Session → Session} (h : ∀ s, g (f s) = f (g s)) :
    Commutes f (modify g : Action Unit) :=
  fun s ↦ congrArg (EStateM.Result.ok ()) (h s)

/-- What is left aside stays as it is. -/
theorem Apart.aside {act : Action α} (h : Apart act) (aside : Aside) :
    Keeps (·.aside = aside) (fun _ ↦ True) act := by
  refine ⟨fun s hs ↦ ?_⟩
  have hkept : act s = atEnd (·.withAside s.aside) (act s) := h.run s.aside s
  generalize act s = r at hkept
  cases r with
  | ok a s' =>
    have hs' : s' = s'.withAside s.aside := (EStateM.Result.ok.inj hkept).2
    exact .ok trivial ((congrArg Session.aside hs').trans hs)
  | error e s' =>
    have hs' : s' = s'.withAside s.aside := (EStateM.Result.error.inj hkept).2
    exact .error trivial ((congrArg Session.aside hs').trans hs)

/-- Any change of what is left aside makes no difference. -/
theorem Apart.commutes {act : Action α} (h : Apart act) (g : Aside → Aside) :
    Commutes (·.mapAside g) act := by
  intro s
  have haside := (h.aside s.aside).run s rfl
  have hrun : act (s.mapAside g) = atEnd (·.withAside (g s.aside)) (act s) := h.run (g s.aside) s
  rw [hrun]
  generalize act s = r at haside
  cases haside with
  | ok _ hs => simp only [atEnd, Session.mapAside, hs]
  | error _ hs => simp only [atEnd, Session.mapAside, hs]

namespace Detached

theorem vars {act : Action α} (h : Detached act) (vars : Variables) :
    Keeps (·.vars = vars) (fun _ ↦ True) act :=
  ⟨fun s hs ↦ ((h.names s.names).run s rfl).mono
    (fun _ hs' ↦ (congrArg Prod.fst hs').trans hs) (fun _ ↦ id) fun _ ↦ id⟩

theorem labels {act : Action α} (h : Detached act) (labels : Table String Int) :
    Keeps (·.labels = labels) (fun _ ↦ True) act :=
  ⟨fun s hs ↦ ((h.names s.names).run s rfl).mono
    (fun _ hs' ↦ (congrArg Prod.snd hs').trans hs) (fun _ ↦ id) fun _ ↦ id⟩

/-! ## Rules -/

theorem bind {x : Action α} {f : α → Action β} (hx : Detached x) (hf : ∀ a, Detached (f a)) :
    Detached (x >>= f) where
  run k := (hx.run k).bind fun a ↦ (hf a).run k
  after p := (hx.after p).bind fun a ↦ (hf a).after p
  grows s := (hx.grows s).bind (fun a s' _ hs' ↦
    ((hf a).grows s').mono (fun _ h ↦ hs'.trans h) (fun _ ↦ id) fun _ ↦ id) fun _ h ↦ h
  names names := .bind (hx.names names) fun a _ ↦ (hf a).names names

theorem pure (a : α) : Detached (pure a : Action α) where
  run _ _ := rfl
  after _ _ := rfl
  grows _ := .ok trivial (.refl _)
  names _ := .pure trivial

theorem throw (stop : Stop) : Detached (throw stop : Action α) where
  run _ _ := rfl
  after _ _ := rfl
  grows _ := .error trivial (.refl _)
  names _ := .throw _

theorem fail (f : Fault) : Detached (Action.fail f : Action α) :=
  throw _

/-- Reading the session: what is done with it may not depend on what is left aside, and on what
there was before. -/
theorem get {f : Session → Action β} (hsame : ∀ s, f (Session.bare s) = f s)
    (h : ∀ s, Detached (f s)) :
    Detached (MonadState.get >>= f) where
  run k s := by
    change f (s.withAside k) (s.withAside k) = atEnd (·.withAside k) (f s s)
    rw [← hsame, s.bare_withAside, hsame]
    exact (h s).run k s
  after p s := by
    change f (s.after p) (s.after p) = atEnd (·.after p) (f s s)
    rw [← hsame, s.bare_after, hsame]
    exact (h s).after p s
  grows s := (h s).grows s
  names names := .get fun s _ ↦ (h s).names names

theorem modify {f : Session → Session}
    (hrun : ∀ s k, f (Session.withAside s k) = (f s).withAside k)
    (hafter : ∀ s p, f (Session.after s p) = (f s).after p) (hheap : ∀ s, (f s).heap = s.heap)
    (hnames : ∀ s, (f s).names = s.names) : Detached (modify f : Action Unit) where
  run k s := congrArg (EStateM.Result.ok ()) (hrun s k)
  after p s := congrArg (EStateM.Result.ok ()) (hafter s p)
  grows s := .ok trivial (hheap s ▸ .refl _)
  names _ := .modify fun s hs ↦ (hnames s).trans hs

theorem ite {c : Prop} [Decidable c] {x y : Action α} (hx : Detached x) (hy : Detached y) :
    Detached (if c then x else y) := by
  split
  · exact hx
  · exact hy

theorem ofStop (x : Except Stop α) : Detached (Action.ofStop x) := by
  cases x with
  | ok a => exact pure a
  | error e => exact throw e

theorem ofFault (x : Except Fault α) : Detached (Action.ofFault x) := by
  cases x with
  | ok a => exact pure a
  | error f => exact fail f

theorem ofNumber (x : Except Number.Mishap α) : Detached (Action.ofNumber x) := by
  cases x with
  | ok a => exact pure a
  | error mishap => exact throw _

/-! ## Loops over lists -/

theorem mapM {γ : Type} {f : γ → Action α} (h : ∀ c, Detached (f c)) (cs : List γ) :
    Detached (cs.mapM f) := by
  induction cs with
  | nil =>
    rw [List.mapM_nil]
    exact pure []
  | cons c cs ih =>
    rw [List.mapM_cons]
    exact bind (h c) fun _ ↦ bind ih fun _ ↦ pure _

theorem forIn {γ : Type} {f : γ → α → Action (ForInStep α)} (h : ∀ c a, Detached (f c a))
    (cs : List γ) (start : α) : Detached (forIn cs start f) := by
  induction cs generalizing start with
  | nil => exact pure start
  | cons c cs ih =>
    rw [List.forIn_cons]
    refine bind (h c start) fun next ↦ ?_
    cases next with
    | done a => exact pure a
    | yield a => exact ih a

end Detached

/-! ## Actions on sessions -/

namespace Session

variable (s : Session)

theorem builtinValue_bare (b : Builtin) : s.bare.builtinValue b = s.builtinValue b := rfl

theorem unresolved_bare (key : String) : s.bare.unresolved key = s.unresolved key := rfl

theorem lookup_bare (name : String) : s.bare.lookup name = s.lookup name := by
  unfold lookup
  simp only [bare_vars, builtinValue_bare, unresolved_bare]

end Session

namespace Action

theorem detached_describe (v : Value) : Detached (describe v) :=
  .get (fun _ ↦ rfl) fun _ ↦ .ofStop _

theorem detached_typed (v : Value) : Detached (typed v) :=
  .get (fun _ ↦ rfl) fun _ ↦ .ofStop _

theorem detached_elements (place : Nat) : Detached (elements place) :=
  .get (fun _ ↦ rfl) fun _ ↦ .pure _

theorem detached_newArray (elements : List Value) : Detached (newArray elements) where
  run _ _ := rfl
  after _ _ := rfl
  grows s := .ok trivial (s.heap.grows_alloc _)
  names _ := ⟨fun _ hs ↦ .ok trivial hs⟩

theorem detached_position (n : Int) (size : Nat) : Detached (position n size) :=
  .get (fun _ ↦ rfl) fun _ ↦ .bind (.ofStop _) fun _ ↦ .pure _

theorem detached_print (text : String) : Detached (print text) := by
  refine .modify (fun _ _ ↦ rfl) (fun s p ↦ ?_) (fun _ ↦ rfl) fun _ ↦ rfl
  change { s.after p with console := (s.console.after p).print text } = _
  rw [Console.print_after]
  rfl

theorem readLine_eq (s : Session) :
    readLine s = match s.console.input with
      | [] => .error .endOfInput s
      | line :: rest => .ok line { s with console := { s.console with input := rest } } := by
  unfold readLine Console.readLine?
  rw [get_bind_run]
  cases s.console.input with
  | nil => rfl
  | cons line rest => rfl

theorem detached_readLine : Detached readLine where
  run k s := by
    rw [readLine_eq, readLine_eq, Session.withAside_console]
    cases s.console.input with
    | nil => rfl
    | cons line rest => rfl
  after p s := by
    rw [readLine_eq, readLine_eq]
    change (match s.console.input with | [] => _ | line :: rest => _ : EStateM.Result _ _ _) = _
    cases s.console.input with
    | nil => rfl
    | cons line rest => rfl
  grows s := by
    rw [readLine_eq]
    cases s.console.input with
    | nil => exact .error trivial (.refl _)
    | cons line rest => exact .ok trivial (.refl _)
  names names := by
    refine ⟨fun s hs ↦ ?_⟩
    rw [readLine_eq]
    cases s.console.input with
    | nil => exact .error trivial hs
    | cons line rest => exact .ok trivial hs

theorem detached_lookup (name : String) : Detached (lookup name) :=
  .get (fun s ↦ by rw [s.lookup_bare]) fun _ ↦ .ofFault _

/-- A change of the session that assigning has nothing to do with: it depends on how much memory the
stored program takes, and changes variables only. -/
structure SparesVariables (f : Session → Session) (s : Session) : Prop where
  settings : (f s).settings = s.settings
  program : (f s).program = s.program
  heap : (f s).heap = s.heap
  vars : (f s).vars = s.vars
  put : ∀ vars, { f s with vars } = f { s with vars }

theorem commutes_assign {f : Session → Session} (hf : ∀ s, SparesVariables f s) (name : String)
    (v : Value) : Commutes f (assign name v) := by
  intro s
  have hassign : (f s).assign name v = (s.assign name v).map f := by
    obtain ⟨hsettings, hprogram, hheap, hvars, hput⟩ := hf s
    unfold Session.assign
    generalize f s = s₁ at hsettings hprogram hheap hvars hput ⊢
    cases s₁
    subst hsettings hprogram hheap hvars
    dsimp only
    cases s.settings.memorySize.isBelow _ with
    | error e => rfl
    | ok isFull =>
      cases isFull with
      | true => rfl
      | false =>
        cases s.vars.define name v with
        | error fault => rfl
        | ok vars => exact congrArg Except.ok (hput vars)
  change (ofStop ((f s).assign name v) >>= set) (f s) =
    atEnd f ((ofStop (s.assign name v) >>= set) s)
  rw [hassign]
  cases s.assign name v with
  | ok s' => rfl
  | error stop => rfl

end Action

/-! ## Operands -/

namespace Operand

theorem detached_miss (base : Nat) (way : List Nat) : Detached (miss base way : Action α) :=
  .get (fun _ ↦ rfl) fun _ ↦ .bind (.ofStop _) fun _ ↦ .throw _

theorem detached_resolve (x : Operand) : Detached x.resolve := by
  cases x with
  | value v => exact .pure v
  | reference name => exact Action.detached_lookup name
  | element base way index name => exact .get (fun _ ↦ rfl) fun _ ↦ .ofStop _
  | inexact base way name => exact detached_miss base way
  | assignment name v => exact .pure v
  | jump target => exact .pure Value.null

theorem detached_resolveAll (operands : List Operand) : Detached (resolveAll operands) :=
  .mapM detached_resolve operands

theorem resolveAll_values (vs : List Value) : resolveAll (vs.map value) = pure vs := by
  induction vs with
  | nil => rfl
  | cons v vs ih =>
    rw [resolveAll] at ih
    rw [resolveAll, List.map_cons, List.mapM_cons, ih]
    rfl

theorem detached_typed (x : Operand) : Detached x.typed := by
  cases x with
  | value v => exact Action.detached_typed v
  | _ => exact .pure _

theorem store_element (base : Nat) (way : List Nat) (index : Nat) (name : String) (v : Value)
    (statement : String) (s : Session) :
    (element base way index name).store v statement s =
      match s.heap.writeElement base way index v with
      | .ok heap => .ok name { s with heap }
      | .error stop => .error stop s := by
  change (Action.ofStop (s.heap.writeElement base way index v) >>= _) s = _
  cases s.heap.writeElement base way index v with
  | ok heap => rfl
  | error stop => rfl

/-- Writing to an element is apart from the same; writing to a variable is not, as it depends on how
much memory the stored program takes. -/
theorem apart_store_element (base : Nat) (way : List Nat) (index : Nat) (name : String)
    (v : Value) (statement : String) :
    Apart ((element base way index name).store v statement) := by
  have hcommutes {f : Session → Session} (hheap : ∀ s, (f s).heap = s.heap)
      (hf : ∀ s heap, { f s with heap } = f { s with heap }) :
      Commutes f ((element base way index name).store v statement) := by
    intro s
    rw [store_element, store_element, hheap]
    cases s.heap.writeElement base way index v with
    | ok heap => exact congrArg _ (hf s heap)
    | error stop => rfl
  exact ⟨fun _ ↦ hcommutes (fun _ ↦ rfl) fun _ _ ↦ rfl,
    fun _ ↦ hcommutes (fun _ ↦ rfl) fun _ _ ↦ rfl⟩

end Operand
end
end LineBasic
