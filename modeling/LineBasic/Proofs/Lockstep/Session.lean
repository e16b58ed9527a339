import LineBasic.Proofs.Lockstep
import LineBasic.Proofs.Text.Upper

/-!
# Sessions and operands in lockstep

The basic actions on a session, and reading and writing operands.  What they read and write are the
values that the session keeps; the frames in force play no part.

* `Session.Refuses`, `Session.refuses_of_lookup` — the faults of a name that has no value.
* `Binders.Stack.unbound_of_lookup`, `Bus.noMemory_of_poke` — those of parameters and of memory.
-/

set_option autoImplicit false
namespace LineBasic

/-! ## Values that are kept -/

section
variable {p : Value → Prop}

theorem Heap.all_initial : Heap.initial.All p := by
  intro place v hv
  simp only [initial, elements] at hv
  cases place with
  | zero => simp at hv
  | succ place => simp at hv

theorem Heap.All.alloc {h : Heap} (hh : h.All p) {elements : Array Value}
    (helements : ∀ v ∈ elements, p v) : (h.alloc elements).2.All p := by
  intro place v hv
  simp only [Heap.alloc, Heap.elements, Array.getElem?_push] at hv
  split at hv
  · exact helements v hv
  · exact hh place v hv

theorem Heap.All.set {h : Heap} (hh : h.All p) {place index : Nat} {v : Value} (hv : p v) :
    (h.set place index v).All p := by
  intro other w hw
  simp only [Heap.set, Heap.elements, Array.getElem?_modify] at hw
  split at hw
  · rename_i heq
    subst heq
    cases harray : h.arrays[place]? with
    | none => simp [harray] at hw
    | some elements =>
      have hold : ∀ w ∈ elements, p w := by
        intro w hw
        exact hh place w (by simpa [Heap.elements, harray] using hw)
      rw [harray] at hw
      simp only [Option.map_some, Option.getD_some] at hw
      rcases Array.mem_or_eq_of_mem_setIfInBounds hw with hw | rfl
      · exact hold w hw
      · exact hv
  · exact hh other w hw

theorem Table.forall_mem_put {κ α : Type} [DecidableEq κ] {p : κ × α → Prop} {k : κ} {v : α}
    (hk : p (k, v)) {es : List (κ × α)} (hes : ∀ e ∈ es, p e) : ∀ e ∈ Table.put k v es, p e := by
  induction es with
  | nil => simpa [Table.put] using hk
  | cons e es ih =>
    rw [List.forall_mem_cons] at hes
    rw [Table.put]
    split
    · exact List.forall_mem_cons.2 ⟨hk, hes.2⟩
    · exact List.forall_mem_cons.2 ⟨hes.1, ih hes.2⟩

theorem Variables.All.define {vars vars' : Variables} (h : vars.All p) {name : String} {v : Value}
    (hv : p v) (hdefine : vars.define name v = .ok vars') : vars'.All p := by
  unfold Variables.define at hdefine
  simp only at hdefine
  split at hdefine
  · cases hdefine
  · cases hdefine
    exact Table.forall_mem_put hv h

theorem Variables.All.lookup? {vars : Variables} (h : vars.All p)
    (hconstant : ∀ {key v}, constant? key = some v → p v) {name : String} {v : Value}
    (hv : vars.lookup? name = some v) : p v := by
  rw [Variables.lookup?] at hv
  simp only [Option.orElse_eq_orElse, Option.orElse_eq_or, Option.or_eq_some_iff] at hv
  rcases hv with hv | ⟨-, hv⟩
  · exact hconstant hv
  · obtain ⟨e, he, rfl⟩ := Option.map_eq_some_iff.1 hv
    exact h e (List.mem_of_find?_eq_some he)

end

section
variable {W : World} {F F' : List Frame}

/-! ## Parameters -/

theorem Binders.Stack.unbound_of_lookup (b : Binders.Stack) (depth index : Int) :
    OnlyFails (fun f ↦ ∃ context, f = unbound depth index context) (b.lookup depth index) := by
  unfold lookup
  dsimp only
  split
  · exact .error ⟨_, rfl⟩
  · split
    · exact .error ⟨_, rfl⟩
    · exact .ok _

/-! ## Memory -/

namespace Bus

theorem noMemory_of_poke (bus : Bus) (address n : Int) :
    OnlyFails (· = noMemory "POKE" address) (bus.poke address n) := by
  cases bus with
  | unavailable => exact .error rfl
  | memory bytes => exact .ok _

theorem noMemory_of_peek (bus : Bus) (address : Int) :
    OnlyFails (· = noMemory "PEEK" address) (bus.peek address) := by
  cases bus with
  | unavailable => exact .error rfl
  | memory bytes => exact .ok _

end Bus

/-! ## Names -/

namespace Session

theorem builtinValue_withFrames (s : Session) (frames : List Frame) (b : Builtin) :
    (s.withFrames frames).builtinValue b = s.builtinValue b := rfl

theorem unresolved_withFrames (s : Session) (frames : List Frame) (key : String) :
    (s.withFrames frames).unresolved key = s.unresolved key := rfl

theorem lookup_withFrames (s : Session) (frames : List Frame) (name : String) :
    (s.withFrames frames).lookup name = s.lookup name := by
  unfold lookup
  simp only [withFrames_vars, builtinValue_withFrames, unresolved_withFrames]

/-- The faults of a name that has no value. -/
inductive Refuses (s : Session) : Fault → Prop
  /-- The name of a builtin that is not available. -/
  | disabled (message : String) : Refuses s (.malformed message)
  /-- The name of a builtin that takes any number of arguments. -/
  | uncountable (message : String) : Refuses s { kind := .typeMismatch, message }
  | unresolved (key : String) : Refuses s (s.unresolved key)

theorem refuses_of_checkEnabled (s : Session) (b : Builtin) :
    OnlyFails s.Refuses (s.checkEnabled b) :=
  .ite (.error (.disabled _)) (.ite (.error (.disabled _)) (.ok _))

theorem refuses_of_builtinValue (s : Session) (b : Builtin) :
    OnlyFails s.Refuses (s.builtinValue b) := by
  refine .bind (s.refuses_of_checkEnabled b) fun _ ↦ ?_
  split
  · exact .ok _
  · exact .error (.uncountable _)

theorem refuses_of_lookup (s : Session) (name : String) :
    OnlyFails s.Refuses (s.lookup name) := by
  rw [lookup]
  refine .ite (.ok _) ?_
  split
  · exact s.refuses_of_builtinValue _
  · split
    · exact .ok _
    · exact .error (.unresolved _)

theorem not_isUnbound_unresolved (s : Session) (key : String) : ¬ (s.unresolved key).IsUnbound := by
  rintro ⟨-, h⟩
  have hlength : ("Unresolved reference " ++ key).length = 20 := congrArg String.length h
  rw [String.length_append, show "Unresolved reference ".length = 21 from rfl] at hlength
  omega

theorem Refuses.not_isUnbound {s : Session} {f : Fault} (h : s.Refuses f) : ¬ f.IsUnbound := by
  cases h with
  | disabled | uncountable => exact Fault.not_isUnbound trivial
  | unresolved key => exact s.not_isUnbound_unresolved key

theorem onlyFails_checkEnabled (s : Session) (b : Builtin) :
    OnlyFails (fun f ↦ ¬ f.IsUnbound) (s.checkEnabled b) :=
  (s.refuses_of_checkEnabled b).mono fun _ ↦ Refuses.not_isUnbound

theorem onlyFails_lookup (s : Session) (name : String) :
    OnlyFails (fun f ↦ ¬ f.IsUnbound) (s.lookup name) :=
  (s.refuses_of_lookup name).mono fun _ ↦ Refuses.not_isUnbound

/-- What holds of constants, of variables and of builtins as values, holds of what a name means. -/
theorem of_lookup {p : Value → Prop} {s : Session} (hs : s.vars.All p) (hnull : p .null)
    (hconstant : ∀ {key v}, constant? key = some v → p v) {name : String}
    (hbuiltin : ∀ b ∈ Builtin.ofName? name, ∀ arity, p (.closure (b.closure arity))) {v : Value}
    (h : s.lookup name = .ok v) : p v := by
  have hvar : ∀ {w}, s.vars.lookup? (Text.upper name) = some w → p w := hs.lookup? hconstant
  unfold lookup at h
  simp only at h
  generalize s.vars.lookup? (Text.upper name) = found at h hvar
  split at h
  · have hv := Except.ok.inj h
    cases found with
    | none => exact hv ▸ hnull
    | some w => exact hv ▸ hvar rfl
  rw [Builtin.ofName?, Text.upper_upper, ← Builtin.ofName?] at h
  split at h
  · obtain ⟨-, -, h⟩ := bind_eq_ok.1 h
    split at h
    · cases h
      exact hbuiltin _ ‹_› _
    · cases h
  split at h
  · exact Except.ok.inj h ▸ hvar rfl
  · cases h

theorem good_of_lookup {s : Session} (hs : s.All W.good) {name : String}
    (hname : ∀ b ∈ Builtin.ofName? name, W.uses b) {v : Value} (h : s.lookup name = .ok v) :
    W.good v :=
  of_lookup hs.vars W.null W.constant (fun b hb arity ↦ W.builtin arity (hname b hb)) h

theorem onlyFails_define (vars : Variables) (name : String) (v : Value) :
    OnlyFails (fun f ↦ ¬ f.IsUnbound) (vars.define name v) :=
  .ite (.error (Fault.not_isUnbound trivial)) (.ok _)

theorem onlyFails_assign (s : Session) (name : String) (v : Value) :
    OnlyFails (fun stop ↦ ¬ stop.IsUnbound) (s.assign name v) := by
  have hbelow : ∀ q, OnlyFails (fun stop ↦ ¬ stop.IsUnbound)
      (s.settings.memorySize.isBelow q) := fun q e he ↦
    Stop.not_isUnbound_of_not_isFault (Quantity.faultless_isBelow _ q e he)
  refine .bind (hbelow _) fun _ ↦ .ite (.error ?_) (.bind ?_ fun _ ↦ .ok _)
  · exact (not_congr Stop.isUnbound_fault_iff).2 (Fault.not_isUnbound trivial)
  · have hdefine := onlyFails_define s.vars name v
    cases h : s.vars.define name v with
    | ok vars => exact .ok _
    | error f => exact .error ((not_congr Stop.isUnbound_fault_iff).2 (hdefine f h))

/-- An assignment changes nothing but the variables. -/
theorem eq_of_assign {s s' : Session} {name : String} {v : Value} (h : s.assign name v = .ok s') :
    ∃ vars, s.vars.define name v = .ok vars ∧ s' = { s with vars } := by
  obtain ⟨isFull, -, h⟩ := bind_eq_ok.1 h
  cases isFull with
  | true => cases h
  | false =>
    obtain ⟨vars, hvars, h⟩ := bind_eq_ok.1 h
    refine ⟨vars, ?_, (Except.ok.inj h).symm⟩
    cases hdefine : s.vars.define name v with
    | ok vars' => rw [hdefine] at hvars; cases hvars; rfl
    | error f => rw [hdefine] at hvars; cases hvars

theorem assign_withFrames (s : Session) (frames : List Frame) (name : String) (v : Value) :
    (s.withFrames frames).assign name v = (s.assign name v).map (·.withFrames frames) := by
  unfold assign
  simp only [withFrames]
  cases s.settings.memorySize.isBelow _ with
  | error e => rfl
  | ok b =>
    cases b with
    | true => rfl
    | false => cases s.vars.define name v <;> rfl

end Session

/-! ## Sessions -/

namespace Action

theorem steady_describe (v : Value) : Steady W F F' (fun _ ↦ True) (describe v) :=
  .get fun s _ _ ↦ .ofStop (s.heap.faultless_describe v) fun _ _ ↦ trivial

theorem steady_typed (v : Value) : Steady W F F' (fun _ ↦ True) (typed v) :=
  .get fun s _ _ ↦ .ofStop (s.heap.faultless_typed v) fun _ _ ↦ trivial

theorem steady_elements (place : Nat) :
    Steady W F F' (fun vs ↦ ∀ v ∈ vs, W.good v) (elements place) :=
  .get fun _ _ hs ↦ .pure fun v hv ↦ hs.heap place v (by simpa using hv)

theorem steady_newArray {vs : List Value} (h : ∀ v ∈ vs, W.good v) :
    Steady W F F' W.good (newArray vs) :=
  ⟨fun _ _ hs ↦ .ok (W.array _)
    ⟨rfl, rfl, hs.heap.alloc (by simpa using h), hs.vars, hs.loops, hs.data⟩⟩

theorem steady_position (n : Int) (size : Nat) :
    Steady W F F' (fun _ ↦ True) (position n size) :=
  .get fun _ _ _ ↦ .bind (.ofStop (Quantity.faultless_sub _ _) fun _ _ ↦ trivial) fun _ _ ↦
    .pure trivial

theorem steady_print (text : String) : Steady W F F' (fun _ ↦ True) (print text) :=
  .modify trivial fun _ hs ↦ ⟨rfl, rfl, hs.heap, hs.vars, hs.loops, hs.data⟩

theorem steady_readLine : Steady W F F' (fun _ ↦ True) readLine := by
  refine .of_get fun s _ hs ↦ ?_
  rw [Session.withFrames_console]
  cases s.console.readLine? with
  | none => exact .error (W.stops_other id) (.refl hs)
  | some p => exact .ok trivial ⟨rfl, rfl, hs.heap, hs.vars, hs.loops, hs.data⟩

theorem steady_lookup {name : String} (hname : ∀ b ∈ Builtin.ofName? name, W.uses b) :
    Steady W F F' W.good (lookup name) := by
  refine .get fun s _ hs ↦ ?_
  rw [s.lookup_withFrames]
  exact .ofFault (s.onlyFails_lookup name) fun _ h ↦ Session.good_of_lookup hs hname h

/-- Any name may be looked up, if it does not matter what it means. -/
theorem steady_lookup_any (name : String) : Steady W F F' (fun _ ↦ True) (lookup name) := by
  refine .get fun s _ _ ↦ ?_
  rw [s.lookup_withFrames]
  exact .ofFault (s.onlyFails_lookup name) fun _ _ ↦ trivial

theorem steady_assign (name : String) {v : Value} (hv : W.good v) :
    Steady W F F' (fun _ ↦ True) (assign name v) := by
  refine .of_get fun s _ hs ↦ ?_
  rw [s.assign_withFrames]
  cases h : s.assign name v with
  | error e => exact .error (W.stops_refl _ (s.onlyFails_assign name v e h)) (.refl hs)
  | ok s' =>
    obtain ⟨vars, hvars, rfl⟩ := Session.eq_of_assign h
    exact .ok trivial ⟨rfl, rfl, hs.heap, hs.vars.define hv hvars, hs.loops, hs.data⟩

end Action

/-! ## Operands -/

namespace Heap

theorem faultless_follow (h : Heap) (place : Nat) (way : List Nat) :
    Faultless (h.follow place way) := by
  induction way generalizing place with
  | nil => exact .ok _
  | cons index way ih =>
    rw [follow]
    split
    · exact .error id
    · exact ih _
    · exact .error id

theorem faultless_readElement (h : Heap) (base : Nat) (way : List Nat) (index : Nat) :
    Faultless (h.readElement base way index) := by
  refine .bind (h.faultless_follow base way) fun place ↦ ?_
  split
  · exact .ok _
  · exact .error id

theorem faultless_writeElement (h : Heap) (base : Nat) (way : List Nat) (index : Nat) (v : Value) :
    Faultless (h.writeElement base way index v) :=
  .bind (h.faultless_follow base way) fun _ ↦ .ite (.ok _) (.error id)

theorem All.readElement {p : Value → Prop} {h : Heap} (hh : h.All p) {base : Nat} {way : List Nat}
    {index : Nat} {v : Value} (hv : h.readElement base way index = .ok v) : p v := by
  obtain ⟨place, -, hv⟩ := bind_eq_ok.1 hv
  split at hv
  · cases hv
    exact hh place v (Array.mem_of_getElem? ‹_›)
  · cases hv

theorem All.writeElement {p : Value → Prop} {h h' : Heap} (hh : h.All p) {base : Nat}
    {way : List Nat} {index : Nat} {v : Value} (hv : p v)
    (hwrite : h.writeElement base way index v = .ok h') : h'.All p := by
  obtain ⟨place, -, hwrite⟩ := bind_eq_ok.1 hwrite
  split at hwrite
  · cases hwrite
    exact hh.set hv
  · cases hwrite

end Heap

/-- An operand of which the value is good, if it has one already, and that names no builtin but those
that may be used. -/
def Operand.IsGood (W : World) : Operand → Prop
  | .value v | .assignment _ v => W.good v
  | .reference name => ∀ b ∈ Builtin.ofName? name, W.uses b
  | .element _ _ _ _ | .inexact _ _ _ | .jump _ => True

namespace Operand

theorem steady_miss {α : Type} {P : α → Prop} (base : Nat) (way : List Nat) :
    Steady W F F' P (miss base way) :=
  .get fun s _ _ ↦ .bind (.ofStop (s.heap.faultless_follow base way) fun _ _ ↦ trivial) fun _ _ ↦
    .throw (W.stops_other id)

theorem steady_resolve {operand : Operand} (h : operand.IsGood W) :
    Steady W F F' W.good operand.resolve := by
  cases operand with
  | value v => exact .pure h
  | reference name => exact Action.steady_lookup h
  | element base way index name =>
    exact .get fun s _ hs ↦ .ofStop (s.heap.faultless_readElement base way index) fun _ hv ↦
      hs.heap.readElement hv
  | inexact base way name => exact steady_miss base way
  | assignment name v => exact .pure h
  | jump target => exact .pure W.null

theorem steady_resolveAll {operands : List Operand} (h : ∀ x ∈ operands, x.IsGood W) :
    Steady W F F' (fun vs ↦ ∀ v ∈ vs, W.good v) (resolveAll operands) :=
  .mapM fun x hx ↦ steady_resolve (h x hx)

theorem steady_typed (operand : Operand) : Steady W F F' (fun _ ↦ True) operand.typed := by
  cases operand with
  | value v => exact Action.steady_typed v
  | _ => exact .pure trivial

theorem steady_store (target : Operand) {v : Value} (hv : W.good v) (statement : String) :
    Steady W F F' (fun _ ↦ True) (target.store v statement) := by
  cases target with
  | reference name => exact .bind (Action.steady_assign name hv) fun _ _ ↦ .pure trivial
  | element base way index name =>
    refine .of_get fun s _ hs ↦ ?_
    rw [Session.withFrames_heap]
    cases h : s.heap.writeElement base way index v with
    | error e =>
      have he := s.heap.faultless_writeElement base way index v e h
      exact .error (W.stops_other he) (.refl hs)
    | ok heap =>
      exact .ok trivial ⟨rfl, rfl, hs.heap.writeElement hv h, hs.vars, hs.loops, hs.data⟩
  | inexact base way name => exact steady_miss base way
  | value | assignment | jump =>
    exact .bind (steady_typed _) fun _ _ ↦ .fail trivial

end Operand
end
end LineBasic
