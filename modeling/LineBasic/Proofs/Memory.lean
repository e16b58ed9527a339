import LineBasic.Proofs.Lockstep.Session
import LineBasic.Proofs.Value.Places

/-!
# Memory

The memory that a session uses is what its variables and its program take.  An assignment is refused
if it does not fit, and nothing else that a statement does makes the variables take more.  For a new
array this holds because no variable refers to its place: in a closed session, all values refer to
arrays that are there.  So that is kept along with the bound.

* `Heap.footprint_alloc`, `Variables.footprint_define`, … — what values and variables take.
* `Session.IsClosed` — the invariant.
* `Session.Spends` — a session that another became, within its memory.
* `Thrifty` — an action that spends within the memory, with values of a kind.  There is one rule for
  each way of building an action.
-/

set_option autoImplicit false
namespace LineBasic

/-! ## What values take -/

namespace Heap

theorem footprint_nonneg (h : Heap) (v : Value) : 0 ≤ h.footprint v := by
  cases v <;> simp only [footprint] <;> omega

/-- A new array is none of those that are referred to. -/
theorem footprint_alloc (h : Heap) (elements : Array Value) {v : Value} (hv : v.Below h.size) :
    (h.alloc elements).2.footprint v = h.footprint v := by
  cases v with
  | array place =>
    simp only [footprint, h.elements_alloc_of_lt elements (Value.below_array.1 hv)]
  | _ => rfl

theorem footprint_set (h : Heap) (place index : Nat) (w v : Value) :
    (h.set place index w).footprint v = h.footprint v := by
  cases v with
  | array other => simp only [footprint, h.size_elements_set]
  | _ => rfl

theorem size_alloc (h : Heap) (elements : Array Value) :
    (h.alloc elements).2.size = h.size + 1 := by
  simp only [alloc, size, Array.size_push]

end Heap

/-- What the values of entries take. -/
def Heap.footprintOf (h : Heap) (es : List (String × Value)) : Int :=
  es.foldr (fun e total ↦ h.footprint e.2 + total) 0

namespace Heap

variable (h : Heap)

theorem footprintOf_nonneg (es : List (String × Value)) : 0 ≤ h.footprintOf es := by
  induction es with
  | nil => exact Int.le_refl 0
  | cons e es ih => exact Int.add_nonneg (h.footprint_nonneg e.2) ih

theorem footprintOf_congr {h' : Heap} {es : List (String × Value)}
    (hsame : ∀ e ∈ es, h'.footprint e.2 = h.footprint e.2) :
    h'.footprintOf es = h.footprintOf es := by
  induction es with
  | nil => rfl
  | cons e es ih =>
    rw [List.forall_mem_cons] at hsame
    simp only [footprintOf, List.foldr, hsame.1]
    exact congrArg (h.footprint e.2 + ·) (ih hsame.2)

/-- The value that an entry gets comes in the place of the one that it had. -/
theorem footprintOf_put (k : String) (v : Value) (es : List (String × Value)) :
    h.footprintOf (Table.put k v es) = h.footprintOf es + h.footprint v -
      ((es.find? fun e ↦ e.1 == k).map fun e ↦ h.footprint e.2).getD 0 := by
  induction es with
  | nil =>
    simp only [Table.put, footprintOf, List.foldr, List.find?_nil, Option.map_none,
      Option.getD_none]
    omega
  | cons e es ih =>
    rw [Table.put, List.find?_cons]
    split
    · rename_i he
      simp only [he, footprintOf, List.foldr, Option.map_some, Option.getD_some]
      omega
    · rename_i he
      simp only [he]
      change h.footprint e.2 + h.footprintOf (Table.put k v es) =
        h.footprint e.2 + h.footprintOf es + h.footprint v - _
      rw [ih]
      omega

end Heap

namespace Variables

variable (h : Heap) (vars : Variables)

theorem footprint_eq : vars.footprint h = h.footprintOf vars.table.entries := by
  rw [footprint, Table.values, List.foldr_map]
  rfl

theorem footprint_nonneg : 0 ≤ vars.footprint h := by
  rw [footprint_eq]
  exact h.footprintOf_nonneg _

/-- An assignment makes the variables take what they were found to take with it. -/
theorem footprint_define {vars' : Variables} {name : String} {v : Value}
    (hdefine : vars.define name v = .ok vars') :
    vars'.footprint h = vars.footprintWith h name v := by
  unfold define at hdefine
  simp only at hdefine
  split at hdefine
  · cases hdefine
  · cases hdefine
    rw [footprint_eq, footprintWith, footprint_eq]
    simp only [Table.insert, Table.get?]
    rw [h.footprintOf_put]
    cases List.find? (fun e ↦ e.1 == Text.upper name) vars.table.entries with
    | none => exact Int.sub_zero _
    | some e => rfl

end Variables

/-! ## Closed sessions -/

theorem LoopSource.All.mono {p q : Value → Prop} {source : LoopSource} (h : source.All p)
    (hpq : ∀ v, p v → q v) : source.All q := by
  cases source with
  | range g => trivial
  | rest values => exact fun v hv ↦ hpq v (h v hv)

theorem Session.All.mono {p q : Value → Prop} {s : Session} (h : s.All p) (hpq : ∀ v, p v → q v) :
    s.All q where
  heap place v hv := hpq v (h.heap place v hv)
  vars e he := hpq e.2 (h.vars e he)
  loops loop hloop := (h.loops loop hloop).mono hpq
  data v hv := hpq v (h.data v hv)

/-- A session in which every array that a value refers to is there. -/
structure Session.IsClosed (s : Session) : Prop where
  nil : nilPlace < s.heap.size
  frames : ∀ frame ∈ s.binders.frames, ∀ v ∈ frame, v.Below s.heap.size
  all : s.All (Value.Below s.heap.size)

/-- A session that another one became in the course of a statement.  It uses no more memory than the
other, or no more than there is. -/
structure Session.Spends (s s' : Session) : Prop where
  size : s.heap.size ≤ s'.heap.size
  closed : s'.IsClosed
  program : s'.program = s.program
  settings : s'.settings = s.settings
  used : ∀ m, s.settings.memorySize.whole? = some m → s'.memoryUsed ≤ max m s.memoryUsed

namespace Session

variable {s s' s'' : Session}

theorem IsClosed.refl (h : s.IsClosed) : s.Spends s :=
  ⟨Nat.le_refl _, h, rfl, rfl, fun m _ ↦ Int.le_max_right m s.memoryUsed⟩

theorem Spends.trans (h : s.Spends s') (h' : s'.Spends s'') : s.Spends s'' where
  size := Nat.le_trans h.size h'.size
  closed := h'.closed
  program := h'.program.trans h.program
  settings := h'.settings.trans h.settings
  used m hm := by
    have hfirst := h.used m hm
    have hsecond := h'.used m (by rw [h.settings, hm])
    omega

/-- What else changes in a session does not matter, if the heap and the variables are the same. -/
theorem IsClosed.replace (h : s.IsClosed) (hheap : s'.heap = s.heap) (hvars : s'.vars = s.vars)
    (hframes : ∀ frame ∈ s'.binders.frames, ∀ v ∈ frame, v.Below s.heap.size)
    (hloops : ∀ loop ∈ s'.loops, loop.source.All (Value.Below s.heap.size))
    (hdata : ∀ v ∈ s'.data, v.Below s.heap.size) : s'.IsClosed where
  nil := by rw [hheap]; exact h.nil
  frames := by rw [hheap]; exact hframes
  all :=
    { heap := by rw [hheap]; exact h.all.heap
      vars := by rw [hheap, hvars]; exact h.all.vars
      loops := by rw [hheap]; exact hloops
      data := by rw [hheap]; exact hdata }

theorem IsClosed.spends (h : s.IsClosed) (hheap : s'.heap = s.heap) (hvars : s'.vars = s.vars)
    (hbinders : s'.binders = s.binders) (hprogram : s'.program = s.program)
    (hsettings : s'.settings = s.settings)
    (hloops : ∀ loop ∈ s'.loops, loop.source.All (Value.Below s.heap.size))
    (hdata : ∀ v ∈ s'.data, v.Below s.heap.size) : s.Spends s' where
  size := Nat.le_of_eq (by rw [hheap])
  closed := h.replace hheap hvars (by rw [hbinders]; exact h.frames) hloops hdata
  program := hprogram
  settings := hsettings
  used m _ := by
    have hused : s'.memoryUsed = s.memoryUsed := by
      rw [memoryUsed, memoryUsed, hheap, hvars, hprogram]
    omega

/-- A new array takes no memory as long as no variable refers to it. -/
theorem IsClosed.spends_alloc (h : s.IsClosed) {elements : Array Value}
    (helements : ∀ v ∈ elements, v.Below s.heap.size) :
    s.Spends { s with heap := (s.heap.alloc elements).2 } := by
  have hsize : s.heap.size ≤ (s.heap.alloc elements).2.size := by
    rw [Heap.size_alloc]
    exact Nat.le_succ _
  have hmono : ∀ v : Value, v.Below s.heap.size → v.Below (s.heap.alloc elements).2.size :=
    fun v hv ↦ hv.mono hsize
  have hall := h.all.mono hmono
  have hclosed : IsClosed { s with heap := (s.heap.alloc elements).2 } :=
    { nil := Nat.lt_of_lt_of_le h.nil hsize
      frames := fun frame hframe v hv ↦ hmono v (h.frames frame hframe v hv)
      all := ⟨hall.heap.alloc fun v hv ↦ hmono v (helements v hv), hall.vars, hall.loops,
        hall.data⟩ }
  refine ⟨hsize, hclosed, rfl, rfl, fun m _ ↦ ?_⟩
  have hsame : s.vars.footprint (s.heap.alloc elements).2 = s.vars.footprint s.heap := by
    rw [Variables.footprint_eq, Variables.footprint_eq]
    exact s.heap.footprintOf_congr fun e he ↦ s.heap.footprint_alloc elements (h.all.vars e he)
  simp only [memoryUsed, hsame]
  omega

/-- An element of an array takes no memory of its own. -/
theorem IsClosed.spends_set (h : s.IsClosed) (place index : Nat) {v : Value}
    (hv : v.Below s.heap.size) : s.Spends { s with heap := s.heap.set place index v } := by
  have hsize : (s.heap.set place index v).size = s.heap.size := s.heap.size_set place index v
  have hclosed : IsClosed { s with heap := s.heap.set place index v } := by
    constructor
    · rw [hsize]
      exact h.nil
    · rw [hsize]
      exact h.frames
    · rw [hsize]
      exact ⟨h.all.heap.set hv, h.all.vars, h.all.loops, h.all.data⟩
  refine ⟨Nat.le_of_eq hsize.symm, hclosed, rfl, rfl, fun m _ ↦ ?_⟩
  have hsame : s.vars.footprint (s.heap.set place index v) = s.vars.footprint s.heap := by
    rw [Variables.footprint_eq, Variables.footprint_eq]
    exact s.heap.footprintOf_congr fun e _ ↦ s.heap.footprint_set place index v e.2
  simp only [memoryUsed, hsame]
  omega

theorem isBelow_of_whole? {q : Quantity} {m : Int} (h : q.whole? = some m) (n : Int) :
    q.isBelow n = .ok (decide (m < n)) := by
  rw [Quantity.isBelow, Quantity.compute, h]
  rfl

/-- An assignment that is made has the memory for it. -/
theorem IsClosed.spends_assign (h : s.IsClosed) {name : String} {v : Value}
    (hv : v.Below s.heap.size) (hassign : s.assign name v = .ok s') : s.Spends s' := by
  obtain ⟨vars, hvars, rfl⟩ := eq_of_assign hassign
  refine ⟨Nat.le_refl _, ⟨h.nil, h.frames, ⟨h.all.heap, h.all.vars.define hv hvars, h.all.loops,
    h.all.data⟩⟩, rfl, rfl, fun m hm ↦ ?_⟩
  obtain ⟨isFull, hfull, hassign⟩ := bind_eq_ok.1 hassign
  rw [isBelow_of_whole? hm] at hfull
  obtain rfl := Except.ok.inj hfull
  have hfits : ¬ m < s.vars.footprintWith s.heap name v + s.program.footprint := by
    intro hlt
    rw [if_pos (decide_eq_true hlt)] at hassign
    cases hassign
  have hused : vars.footprint s.heap = s.vars.footprintWith s.heap name v :=
    s.vars.footprint_define s.heap hvars
  simp only [memoryUsed, hused]
  omega

/-- Without variables, a session uses the memory of its program only. -/
theorem memoryUsed_le_of_forgotten (s s' : Session) (hvars : s'.vars = .empty) (hprogram : s'.program = s.program) :
    s'.memoryUsed ≤ s.memoryUsed := by
  have hnonneg := s.vars.footprint_nonneg s.heap
  simp only [memoryUsed, hvars, hprogram, Variables.footprint_eq, Variables.empty]
  rw [Variables.footprint_eq] at hnonneg
  simp only [Heap.footprintOf, List.foldr]
  unfold Heap.footprintOf at hnonneg
  omega

/-- Forgetting all variables. -/
theorem IsClosed.spends_forget (h : s.IsClosed) : s.Spends { s with vars := .empty } where
  size := Nat.le_refl _
  closed := ⟨h.nil, h.frames, ⟨h.all.heap, List.forall_mem_nil _, h.all.loops, h.all.data⟩⟩
  program := rfl
  settings := rfl
  used m _ := by
    have hless := memoryUsed_le_of_forgotten s { s with vars := .empty } rfl rfl
    omega

end Session

/-! ## Thrifty actions -/

/-- How an action ends that was started in the session `s`. -/
inductive Lands {α : Type} (s : Session) (Q : Nat → α → Prop) :
    EStateM.Result Stop Session α → Prop
  | ok {a : α} {s' : Session} (hs : s.Spends s') (ha : Q s'.heap.size a) : Lands s Q (.ok a s')
  | error {stop : Stop} {s' : Session} (hs : s.Spends s') : Lands s Q (.error stop s')

/-- An action that spends within the memory, in every closed session with at least `n` arrays.  What
holds of its value depends on the number of arrays in the end. -/
structure Thrifty {α : Type} (n : Nat) (Q : Nat → α → Prop) (act : Action α) : Prop where
  run : ∀ s, n ≤ s.heap.size → s.IsClosed → Lands s Q (act s)

/-- An action that spends within the memory, with any value. -/
abbrev Frugal {α : Type} (n : Nat) (act : Action α) : Prop :=
  Thrifty n (fun _ _ ↦ True) act

/-- Values that refer to places of a heap of the given size only. -/
abbrev AllBelow (n : Nat) (vs : List Value) : Prop :=
  ∀ v ∈ vs, v.Below n

namespace AllBelow

variable {m n : Nat} {v : Value} {vs ws : List Value}

theorem mono (h : AllBelow n vs) (hmn : n ≤ m) : AllBelow m vs :=
  fun v hv ↦ (h v hv).mono hmn

theorem nil : AllBelow n [] :=
  List.forall_mem_nil _

theorem cons (hv : v.Below n) (hvs : AllBelow n vs) : AllBelow n (v :: vs) :=
  List.forall_mem_cons.2 ⟨hv, hvs⟩

theorem append (hvs : AllBelow n vs) (hws : AllBelow n ws) : AllBelow n (vs ++ ws) :=
  List.forall_mem_append.2 ⟨hvs, hws⟩

theorem headD (h : AllBelow n vs) : (vs.headD .null).Below n := by
  cases vs with
  | nil => exact Value.below_null
  | cons v vs => exact h v (List.mem_cons_self ..)

end AllBelow

section
variable {α β : Type} {n : Nat} {Q : Nat → α → Prop} {Q' : Nat → β → Prop}

theorem Lands.after {s s' : Session} {r : EStateM.Result Stop Session α} (h : Lands s' Q r)
    (hs : s.Spends s') : Lands s Q r := by
  cases h with
  | ok hs' ha => exact .ok (hs.trans hs') ha
  | error hs' => exact .error (hs.trans hs')

namespace Thrifty

/-! ## Rules -/

theorem bind {x : Action α} {f : α → Action β} (hx : Thrifty n Q x)
    (hf : ∀ {m}, n ≤ m → ∀ a, Q m a → Thrifty m Q' (f a)) : Thrifty n Q' (x >>= f) := by
  refine ⟨fun s hn hs ↦ ?_⟩
  have h := hx.run s hn hs
  change Lands s Q' (EStateM.bind x f s)
  unfold EStateM.bind
  generalize x s = r at h
  cases h with
  | @ok a s' hs' ha =>
    exact ((hf (Nat.le_trans hn hs'.size) a ha).run s' (Nat.le_refl _) hs'.closed).after hs'
  | error hs' => exact .error hs'

theorem pure {a : α} (h : ∀ m, n ≤ m → Q m a) : Thrifty n Q (pure a) :=
  ⟨fun s hn hs ↦ .ok hs.refl (h s.heap.size hn)⟩

theorem value {v : Value} (h : v.Below n) : Thrifty n Value.Below (Pure.pure v) :=
  pure fun _ hm ↦ h.mono hm

theorem values {vs : List Value} (h : AllBelow n vs) : Thrifty n AllBelow (Pure.pure vs) :=
  pure fun _ hm ↦ h.mono hm

theorem any {a : α} : Frugal n (Pure.pure a : Action α) :=
  pure fun _ _ ↦ trivial

theorem throw (stop : Stop) : Thrifty n Q (throw stop : Action α) :=
  ⟨fun _ _ hs ↦ .error hs.refl⟩

theorem fail (f : Fault) : Thrifty n Q (Action.fail f : Action α) :=
  throw _

/-- Reading the session, to do something with it right away. -/
theorem of_get {f : Session → Action β}
    (h : ∀ s : Session, n ≤ s.heap.size → s.IsClosed → Lands s Q' (f s s)) :
    Thrifty n Q' (MonadState.get >>= f) :=
  ⟨h⟩

theorem get {f : Session → Action β}
    (h : ∀ s : Session, n ≤ s.heap.size → s.IsClosed → Thrifty s.heap.size Q' (f s)) :
    Thrifty n Q' (MonadState.get >>= f) :=
  ⟨fun s hn hs ↦ (h s hn hs).run s (Nat.le_refl _) hs⟩

theorem modify {f : Session → Session}
    (h : ∀ s : Session, n ≤ s.heap.size → s.IsClosed → s.Spends (f s)) :
    Frugal n (modify f : Action Unit) :=
  ⟨fun s hn hs ↦ .ok (h s hn hs) trivial⟩

theorem modify_bind {f : Session → Session} {g : PUnit → Action β}
    (h : ∀ s : Session, n ≤ s.heap.size → s.IsClosed → s.Spends (f s))
    (hg : ∀ {m}, n ≤ m → Thrifty m Q' (g ⟨⟩)) :
    Thrifty n Q' (MonadState.modifyGet (fun s ↦ (⟨⟩, f s)) >>= g) :=
  bind (Q := fun _ _ ↦ True) (modify h) fun hm _ _ ↦ hg hm

theorem ite {c : Prop} [Decidable c] {x y : Action α} (hx : c → Thrifty n Q x)
    (hy : ¬ c → Thrifty n Q y) : Thrifty n Q (if c then x else y) := by
  split
  · exact hx ‹_›
  · exact hy ‹_›

/-- An action that is thrifty is so when there are more arrays. -/
theorem later {m : Nat} {x : Action α} (h : Thrifty n Q x) (hm : n ≤ m) : Thrifty m Q x :=
  ⟨fun s hs ↦ h.run s (Nat.le_trans hm hs)⟩

theorem ofStop {x : Except Stop α} (h : ∀ m, n ≤ m → ∀ a, x = .ok a → Q m a) :
    Thrifty n Q (Action.ofStop x) := by
  cases x with
  | ok a => exact pure fun m hm ↦ h m hm a rfl
  | error stop => exact throw stop

theorem ofFault {x : Except Fault α} (h : ∀ m, n ≤ m → ∀ a, x = .ok a → Q m a) :
    Thrifty n Q (Action.ofFault x) := by
  cases x with
  | ok a => exact pure fun m hm ↦ h m hm a rfl
  | error f => exact fail f

theorem anyStop (x : Except Stop α) : Frugal n (Action.ofStop x) :=
  ofStop fun _ _ _ _ ↦ trivial

theorem anyFault (x : Except Fault α) : Frugal n (Action.ofFault x) :=
  ofFault fun _ _ _ _ ↦ trivial

theorem ofNumber (x : Except Number.Mishap α) : Frugal n (Action.ofNumber x) := by
  cases x with
  | ok a => exact any
  | error mishap => exact throw _

/-! ## Loops over lists -/

theorem mapM {γ : Type} {f : γ → Action Value} {as : List γ}
    (h : ∀ a ∈ as, Thrifty n Value.Below (f a)) : Thrifty n AllBelow (as.mapM f) := by
  induction as generalizing n with
  | nil =>
    rw [List.mapM_nil]
    exact values (List.forall_mem_nil _)
  | cons a as ih =>
    rw [List.forall_mem_cons] at h
    rw [List.mapM_cons]
    refine bind h.1 fun hm v hv ↦ bind (ih fun a ha ↦ (h.2 a ha).later hm) fun hm' vs hvs ↦ ?_
    exact values (List.forall_mem_cons.2 ⟨hv.mono hm', hvs⟩)

theorem foldlM {γ : Type} {f : Value → γ → Action Value} {as : List γ} {start : Value}
    (hstart : start.Below n)
    (h : ∀ m, n ≤ m → ∀ v : Value, v.Below m → ∀ a ∈ as, Thrifty m Value.Below (f v a)) :
    Thrifty n Value.Below (as.foldlM f start) := by
  induction as generalizing n start with
  | nil => exact value hstart
  | cons a as ih =>
    rw [List.foldlM_cons]
    refine bind (h n (Nat.le_refl n) start hstart a (List.mem_cons_self ..)) fun hm v hv ↦ ?_
    exact ih hv fun k hk w hw b hb ↦
      h k (Nat.le_trans hm hk) w hw b (List.mem_cons_of_mem _ hb)

theorem filterAuxM {f : Value → Action Bool} {as found : List Value} (has : AllBelow n as)
    (hfound : AllBelow n found) (h : ∀ a ∈ as, Frugal n (f a)) :
    Thrifty n AllBelow (as.filterAuxM f found) := by
  induction as generalizing n found with
  | nil => exact values hfound
  | cons a as ih =>
    rw [AllBelow, List.forall_mem_cons] at has
    rw [List.forall_mem_cons] at h
    rw [List.filterAuxM]
    refine bind h.1 fun hm b _ ↦ ih (AllBelow.mono has.2 hm) ?_ fun a ha ↦ (h.2 a ha).later hm
    cases b with
    | false => exact hfound.mono hm
    | true => exact List.forall_mem_cons.2 ⟨has.1.mono hm, hfound.mono hm⟩

theorem filterM {f : Value → Action Bool} {as : List Value} (has : AllBelow n as)
    (h : ∀ a ∈ as, Frugal n (f a)) : Thrifty n AllBelow (as.filterM f) :=
  bind (filterAuxM has (List.forall_mem_nil _) h) fun _ _ hvs ↦
    values fun v hv ↦ hvs v (List.mem_reverse.1 hv)

theorem mapM_any {γ : Type} {f : γ → Action α} {as : List γ} (h : ∀ a ∈ as, Frugal n (f a)) :
    Frugal n (as.mapM f) := by
  induction as generalizing n with
  | nil =>
    rw [List.mapM_nil]
    exact any
  | cons a as ih =>
    rw [List.forall_mem_cons] at h
    rw [List.mapM_cons]
    exact bind h.1 fun hm _ _ ↦ bind (ih fun a ha ↦ (h.2 a ha).later hm) fun _ _ _ ↦ any

end Thrifty

/-! ## Actions on sessions -/

namespace Action

theorem frugal_describe (v : Value) : Frugal n (describe v) :=
  .get fun _ _ _ ↦ .anyStop _

theorem frugal_typed (v : Value) : Frugal n (typed v) :=
  .get fun _ _ _ ↦ .anyStop _

theorem thrifty_elements (place : Nat) : Thrifty n AllBelow (elements place) :=
  .get fun _ _ hs ↦ .values fun v hv ↦ hs.all.heap place v (by simpa using hv)

theorem thrifty_newArray {vs : List Value} (h : AllBelow n vs) :
    Thrifty n Value.Below (newArray vs) := by
  refine .of_get fun s hn hs ↦ ?_
  refine .ok (hs.spends_alloc fun v hv ↦ (h v (by simpa using hv)).mono hn) ?_
  refine Value.below_array.2 ?_
  change s.heap.size < (s.heap.alloc vs.toArray).2.size
  rw [Heap.size_alloc]
  exact Nat.lt_succ_self _

theorem frugal_position (k : Int) (size : Nat) : Frugal n (position k size) :=
  .get fun _ _ _ ↦ .bind (.anyStop _) fun _ _ _ ↦ .any

theorem frugal_print (text : String) : Frugal n (print text) :=
  .modify fun _ _ hs ↦ hs.spends rfl rfl rfl rfl rfl hs.all.loops hs.all.data

theorem frugal_readLine : Frugal n readLine := by
  refine .of_get fun s _ hs ↦ ?_
  cases s.console.readLine? with
  | none => exact .error hs.refl
  | some p => exact .ok (hs.spends rfl rfl rfl rfl rfl hs.all.loops hs.all.data) trivial

theorem thrifty_lookup (name : String) : Thrifty n Value.Below (lookup name) :=
  .get fun _ _ hs ↦ .ofFault fun _ hm _ h ↦ Session.of_lookup
    (fun e he ↦ (hs.all.vars e he).mono hm) Value.below_null
    (below_of_constant? (Nat.lt_of_lt_of_le hs.nil hm)) (fun b _ arity ↦ b.below_closure arity) h

theorem frugal_assign (name : String) {v : Value} (hv : v.Below n) : Frugal n (assign name v) := by
  refine .of_get fun s hn hs ↦ ?_
  cases h : s.assign name v with
  | error e => exact .error hs.refl
  | ok s' => exact .ok (hs.spends_assign (hv.mono hn) h) trivial

end Action

/-! ## Operands -/

/-- An operand of which the value, if it has one already, refers to places of a heap of the given
size only. -/
def Operand.Below (n : Nat) : Operand → Prop
  | .value v | .assignment _ v => v.Below n
  | .reference _ | .element _ _ _ _ | .inexact _ _ _ | .jump _ => True

namespace Operand

theorem Below.mono {m : Nat} {x : Operand} (h : x.Below n) (hmn : n ≤ m) : x.Below m := by
  cases x with
  | value v | assignment name v => exact Value.Below.mono h hmn
  | _ => trivial

theorem thrifty_pure {x : Operand} (h : x.Below n) : Thrifty n Operand.Below (pure x) :=
  .pure fun _ hm ↦ h.mono hm

theorem thrifty_miss (base : Nat) (way : List Nat) : Thrifty n Q (miss base way) :=
  .get fun _ _ _ ↦ .bind (.anyStop _) fun _ _ _ ↦ .throw _

theorem thrifty_resolve {x : Operand} (h : x.Below n) : Thrifty n Value.Below x.resolve := by
  cases x with
  | value v | assignment name v => exact .value h
  | reference name => exact Action.thrifty_lookup name
  | element base way index name =>
    exact .get fun _ _ hs ↦ .ofStop fun _ hm _ hv ↦ (hs.all.heap.readElement hv).mono hm
  | inexact base way name => exact thrifty_miss base way
  | jump target => exact .value Value.below_null

theorem thrifty_resolveAll {xs : List Operand} (h : ∀ x ∈ xs, x.Below n) :
    Thrifty n AllBelow (resolveAll xs) :=
  .mapM fun x hx ↦ thrifty_resolve (h x hx)

theorem frugal_typed (x : Operand) : Frugal n x.typed := by
  cases x with
  | value v => exact Action.frugal_typed v
  | _ => exact .any

theorem frugal_store (target : Operand) {v : Value} (hv : v.Below n) (statement : String) :
    Frugal n (target.store v statement) := by
  cases target with
  | reference name => exact .bind (Action.frugal_assign name hv) fun _ _ _ ↦ .any
  | element base way index name =>
    refine .of_get fun s hn hs ↦ ?_
    cases h : s.heap.writeElement base way index v with
    | error e => exact .error hs.refl
    | ok heap =>
      obtain ⟨place, -, h⟩ := bind_eq_ok.1 h
      split at h
      · cases h
        exact .ok (hs.spends_set place index (hv.mono hn)) trivial
      · cases h
  | inexact base way name => exact thrifty_miss base way
  | value | assignment | jump => exact .bind (frugal_typed _) fun _ _ _ ↦ .fail _

end Operand
end
end LineBasic
