import LineBasic.Proofs.Abreast
import LineBasic.Proofs.Comparison.Trait
import LineBasic.Proofs.Dialogue.Keeping
import LineBasic.Proofs.Lockstep.Session

/-!
# What is written to arrays

Arrays are the only values that change, and they change in one way only: an assignment, `READ` or
`INPUT` stores a value through the handle of an element.  So what a statement does to the arrays that
there are can be told as a list of writes, however they are spread over expressions, calls and loops.

* `Write`, `Write.replay` — a write, and what writes make of an array.
* `Writes` — the writes that an action makes.
* `Writes.ends` — nothing else happens to the arrays that there are.
* `Trait.ofSpares` — traits that all actions have which leave the arrays that there are as they are.
* `writes_execute`, `writes_callWithin` — every statement and every call makes writes.
-/

set_option autoImplicit false
namespace LineBasic

/-! ## Writes -/

/-- A value that a builtin stores at an index of the array at a place. -/
structure Write where
  builtin : Builtin
  place : Nat
  index : Nat
  value : Value

namespace Write

/-- The elements of the array at a place after a write. -/
def on (place : Nat) (elements : Array Value) (w : Write) : Array Value :=
  if w.place = place then elements.setIfInBounds w.index w.value else elements

/-- The elements of the array at a place after writes. -/
def replay (place : Nat) (ws : List Write) (elements : Array Value) : Array Value :=
  ws.foldl (on place) elements

variable {place : Nat} {ws : List Write} {elements : Array Value}

theorem replay_append (ws' : List Write) :
    replay place (ws ++ ws') elements = replay place ws' (replay place ws elements) :=
  List.foldl_append

theorem size_on (w : Write) : (on place elements w).size = elements.size := by
  unfold on
  split
  · exact Array.size_setIfInBounds
  · rfl

/-- Writes do not change the length of an array. -/
theorem size_replay : (replay place ws elements).size = elements.size := by
  induction ws generalizing elements with
  | nil => rfl
  | cons w ws ih => exact ih.trans (size_on w)

theorem getElem?_on_of_ne {w : Write} {index : Nat} (h : ¬ (w.place = place ∧ w.index = index)) :
    (on place elements w)[index]? = elements[index]? := by
  unfold on
  split
  · rename_i hplace
    exact Array.getElem?_setIfInBounds_ne fun hindex ↦ h ⟨hplace, hindex⟩
  · rfl

/-- What is no longer in an array was replaced by a write there. -/
theorem exists_mem_of_replay_ne {index : Nat}
    (h : (replay place ws elements)[index]? ≠ elements[index]?) :
    ∃ w ∈ ws, w.place = place ∧ w.index = index := by
  induction ws generalizing elements with
  | nil => exact absurd rfl h
  | cons w ws ih =>
    by_cases hw : w.place = place ∧ w.index = index
    · exact ⟨w, List.mem_cons_self .., hw⟩
    · have hws : (replay place ws (on place elements w))[index]? ≠ (on place elements w)[index]? := by
        rwa [getElem?_on_of_ne hw]
      obtain ⟨w', hmem, hw'⟩ := ih hws
      exact ⟨w', List.mem_cons_of_mem w hmem, hw'⟩

end Write

/-- A heap with all arrays of another one, after writes to them. -/
structure Heap.Written (h : Heap) (ws : List Write) (h' : Heap) : Prop where
  size : h.size ≤ h'.size
  elements : ∀ place < h.size, h'.elements place = Write.replay place ws (h.elements place)

namespace Heap

variable {h h₁ h₂ : Heap} {ws ws' : List Write}

theorem written_nil : h.Written [] h₁ ↔ h.Grows h₁ :=
  ⟨fun hw ↦ ⟨hw.size, hw.elements⟩, fun hg ↦ ⟨hg.size, hg.elements⟩⟩

theorem Written.trans (hw : h.Written ws h₁) (hw' : h₁.Written ws' h₂) :
    h.Written (ws ++ ws') h₂ where
  size := Nat.le_trans hw.size hw'.size
  elements place hplace := by
    rw [hw'.elements place (Nat.lt_of_lt_of_le hplace hw.size), hw.elements place hplace,
      Write.replay_append]

theorem elements_set (h : Heap) (place index : Nat) (v : Value) (place' : Nat) :
    (h.set place index v).elements place' =
      if place = place' then (h.elements place').setIfInBounds index v else h.elements place' := by
  simp only [set, elements, Array.getElem?_modify]
  split
  · cases h.arrays[place']? <;> simp
  · rfl

theorem written_set (h : Heap) (b : Builtin) (place index : Nat) (v : Value) :
    h.Written [⟨b, place, index, v⟩] (h.set place index v) where
  size := Nat.le_of_eq (h.size_set place index v).symm
  elements place' _ := h.elements_set place index v place'

end Heap

/-! ## The writes of an action -/

/-- How an action ends that leaves the arrays that there are as they are. -/
abbrev Spares {α : Type} (s : Session) (r : EStateM.Result Stop Session α) : Prop :=
  Ends (fun s' ↦ s.heap.Grows s'.heap) (fun _ ↦ True) (fun _ ↦ True) r

/-- The writes that an action makes in a session. -/
inductive Writes : {α : Type} → Action α → Session → List Write → Prop
  | spared {α : Type} {act : Action α} {s : Session} (h : Spares s (act s)) : Writes act s []
  /-- A builtin that writes stores a value through the handle of an element. -/
  | stored {b : Builtin} {s s' : Session} {base place index : Nat} {way : List Nat}
      {name name' : String} {v : Value} (hb : b.writes = true)
      (hplace : s.heap.follow base way = .ok place)
      (h : (Operand.element base way index name).store v b.name s = .ok name' s') :
      Writes ((Operand.element base way index name).store v b.name) s [⟨b, place, index, v⟩]
  | bind {α β : Type} {x : Action α} {f : α → Action β} {s s₁ : Session} {a : α}
      {ws ws' : List Write} (hx : Writes x s ws) (ha : x s = .ok a s₁) (hf : Writes (f a) s₁ ws') :
      Writes (x >>= f) s (ws ++ ws')
  | stopped {α β : Type} {x : Action α} {f : α → Action β} {s s₁ : Session} {e : Stop}
      {ws : List Write} (hx : Writes x s ws) (he : x s = .error e s₁) : Writes (x >>= f) s ws
  | inCall {α : Type} {act : Action α} {s : Session} {c : Closure} {args : Frame}
      {ws : List Write} (hfull : s.binders.isFull = false)
      (h : Writes act { s with binders := s.binders.enter c args } ws) :
      Writes (Action.inCall c args act) s ws
  | settled {α : Type} {act : Action α} {s : Session} {ws : List Write} (site : Site)
      (h : Writes act s ws) : Writes (act.settled site) s ws

section
variable {α : Type} {act : Action α} {s : Session} {ws : List Write}

/-- A handle leads to an array when something is stored through it, and only that element is
replaced. -/
theorem Heap.writeElement_eq_ok {h h' : Heap} {base : Nat} {way : List Nat} {index : Nat}
    {v : Value} (hok : h.writeElement base way index v = .ok h') :
    ∃ place, h.follow base way = .ok place ∧ index < (h.elements place).size ∧
      h' = h.set place index v := by
  obtain ⟨place, hplace, hok⟩ := bind_eq_ok.1 hok
  split at hok
  · exact ⟨place, hplace, ‹_›, (Except.ok.inj hok).symm⟩
  · cases hok

/-- Only builtins that write are written with. -/
theorem Writes.builtin (h : Writes act s ws) : ∀ w ∈ ws, w.builtin.writes = true := by
  induction h with
  | spared => exact List.forall_mem_nil _
  | stored hb => exact List.forall_mem_singleton.2 hb
  | bind _ _ _ ihx ihf => exact List.forall_mem_append.2 ⟨ihx, ihf⟩
  | stopped _ _ ih => exact ih
  | inCall _ _ ih => exact ih
  | settled _ _ ih => exact ih

/-- However an action ends, the arrays from before are as its writes make them. -/
theorem Writes.ends (h : Writes act s ws) :
    Ends (fun s' ↦ s.heap.Written ws s'.heap) (fun _ ↦ True) (fun _ ↦ True) (act s) := by
  induction h with
  | spared h => exact h.mono (fun _ ↦ Heap.written_nil.2) (fun _ ↦ id) fun _ ↦ id
  | @stored b s s' base place index way name name' v _ hplace h =>
    rw [Operand.store_element] at h ⊢
    cases hwrite : s.heap.writeElement base way index v with
    | error stop =>
      rw [hwrite] at h
      cases h
    | ok heap =>
      obtain ⟨place', hplace', -, rfl⟩ := Heap.writeElement_eq_ok hwrite
      cases hplace.symm.trans hplace'
      exact .ok trivial (s.heap.written_set b place index v)
  | @bind _ _ x f s s₁ a ws ws' _ ha _ ihx ihf =>
    have hfirst := (ha ▸ ihx).of_ok.2
    rw [bind_run_of_ok ha]
    exact ihf.mono (fun _ ↦ hfirst.trans) (fun _ ↦ id) fun _ ↦ id
  | @stopped _ _ x f s s₁ e ws _ he ih =>
    rw [bind_run_eq_error.2 (.inl he)]
    exact .error trivial (he ▸ ih).of_error.2
  | inCall hfull _ ih =>
    rw [inCall_of_not_isFull hfull]
    exact ih.putBack fun _ h ↦ h
  | settled site _ ih => exact ih.settled site

end

/-! ## Actions that change other parts of a session -/

section
variable {P : Session → Prop}

theorem keeps_assign (hP : ∀ s vars, P s → P { s with vars }) (name : String) (v : Value) :
    Keeps P (fun _ ↦ True) (Action.assign name v) := by
  refine .get fun s hs ↦ .bind (Q := P) (keeps_ofStop fun s' h ↦ ?_) fun _ h ↦ .set h
  obtain ⟨vars, -, rfl⟩ := Session.eq_of_assign h
  exact hP s vars hs

theorem keeps_comeBackOf (hP : ∀ s returns, P s → P { s with returns }) :
    Keeps P (fun _ ↦ True) Builtin.comeBackOf := by
  refine ⟨fun s hs ↦ ?_⟩
  cases h : s.returns with
  | nil => exact Builtin.comeBackOf_of_nil h ▸ .error trivial hs
  | cons back outer => exact Builtin.comeBackOf_of_cons h ▸ .ok trivial (hP s outer hs)

theorem keeps_labelOf (hP : ∀ s labels, P s → P { s with labels }) (site : Site) (x : Operand) :
    Keeps P (fun _ ↦ True) (Builtin.labelOf site x) := by
  refine .get fun s hs ↦ .ite (fun _ ↦ ?_) fun _ ↦ .pure trivial
  cases x with
  | reference name =>
    simp only
    cases s.labels.get? name with
    | some line => exact .bind (keeps_fail (Q := fun _ ↦ True) _) fun _ _ ↦ .pure trivial
    | none => exact .bind (.set (hP s _ hs)) fun _ _ ↦ .pure trivial
  | _ => exact .bind (keeps_fail (Q := fun _ ↦ True) _) fun _ _ ↦ .pure trivial

theorem keeps_dataOf (hP : ∀ s data, P s → P { s with data }) (values : List Value) :
    Keeps P (fun _ ↦ True) (Builtin.dataOf values) :=
  .get fun _ _ ↦ .ite (fun _ ↦ .bind (.modify fun s ↦ hP s _) fun _ _ ↦ .pure trivial) fun _ ↦
    .pure trivial

theorem keeps_nextDatum (hP : ∀ s cursor, P s → P { s with cursor }) :
    Keeps P (fun _ ↦ True) Builtin.nextDatum := by
  refine ⟨fun s hs ↦ ?_⟩
  rw [Builtin.nextDatum_eq]
  cases s.data[s.cursor]? with
  | some v => exact .ok trivial (hP s _ hs)
  | none => exact .error trivial hs

theorem keeps_restoreOf (hP : ∀ s cursor, P s → P { s with cursor }) :
    Keeps P (fun _ ↦ True) Builtin.restoreOf :=
  .bind (.modify fun s ↦ hP s 0) fun _ _ ↦ .pure trivial

theorem keeps_clearOf (hP : ∀ s vars, P s → P { s with vars }) :
    Keeps P (fun _ ↦ True) Builtin.clearOf :=
  .bind (.modify fun s ↦ hP s .empty) fun _ _ ↦ .pure trivial

end

/-- How an action ends that leaves the heap alone. -/
theorem Keeps.spares {α : Type} {Q : α → Prop} {act : Action α}
    (h : ∀ heap, Keeps (·.heap = heap) Q act) (s : Session) : Spares s (act s) :=
  ((h s.heap).run s rfl).mono (fun _ hs ↦ hs ▸ .refl _) (fun _ _ ↦ trivial) fun _ ↦ id

theorem spares_modify {f : Session → Session} (h : ∀ s, (f s).heap = s.heap) (s : Session) :
    Spares s ((modify f : Action Unit) s) :=
  .ok trivial (h s ▸ .refl _)

theorem spares_get (s : Session) : Spares s ((get : Action Session) s) :=
  .ok trivial (.refl _)

theorem spares_randomOf (b : Builtin) (v : Value) (s : Session) : Spares s (b.randomOf v s) := by
  refine ((b.detached_number v).grows s).bind (fun x s₁ _ hs₁ ↦ ?_) fun _ h ↦ h
  dsimp only
  split
  · exact .ok trivial hs₁
  · exact .ok trivial hs₁

/-- A trait that all computations have that leave the arrays that there are as they are. -/
@[reducible]
def Trait.ofSpares (site : Site) (permits : Builtin → Bool)
    (holds : {α : Type} → Action α → Prop)
    (spared : ∀ {α : Type} {act : Action α}, (∀ s, Spares s (act s)) → holds act)
    (bind : ∀ {α β : Type} {x : Action α} {f : α → Action β}, holds x →
      (∀ a, (∃ s s', x s = .ok a s') → holds (f a)) → holds (x >>= f))
    (write : ∀ {b : Builtin}, b.writes = true → permits b = true → ∀ base way index name v,
      holds ((Operand.element base way index name).store v b.name))
    (inCall : ∀ {act : Action Value} (c : Closure) (args : Frame), holds act →
      holds (Action.inCall c args act)) : Trait site where
  holds := holds
  permits := permits
  pure a := spared (Detached.pure a).grows
  bind := bind
  detached h := spared h.grows
  assign name v := spared (Keeps.spares fun _ ↦ keeps_assign (fun _ _ ↦ id) name v)
  write := write
  binders _ h := bind (spared spares_get) fun s _ ↦ h s.binders
  inCall := inCall
  loops _ h := bind (spared spares_get) fun s _ ↦ h s.loops
  putLoops _ := spared (spares_modify fun _ ↦ rfl)
  goSub _ := spared (spares_modify fun _ ↦ rfl)
  comeBack _ := spared (Keeps.spares fun _ ↦ keeps_comeBackOf fun _ _ ↦ id)
  label _ x := spared (Keeps.spares fun _ ↦ keeps_labelOf (fun _ _ ↦ id) site x)
  random _ v := spared (spares_randomOf _ v)
  collectData _ values := spared (Keeps.spares fun _ ↦ keeps_dataOf (fun _ _ ↦ id) values)
  nextDatum := spared (Keeps.spares fun _ ↦ keeps_nextDatum fun _ _ ↦ id)
  restore := spared (Keeps.spares fun _ ↦ keeps_restoreOf fun _ _ ↦ id)
  clear := spared (Keeps.spares fun _ ↦ keeps_clearOf fun _ _ ↦ id)

/-! ## The writes of statements -/

/-- An action that makes writes in every session, and does nothing else to the arrays that there
are. -/
def MakesWrites {α : Type} (act : Action α) : Prop :=
  ∀ s, ∃ ws, Writes act s ws

namespace MakesWrites

variable {α β : Type}

theorem of_spares {act : Action α} (h : ∀ s, Spares s (act s)) : MakesWrites act :=
  fun s ↦ ⟨[], .spared (h s)⟩

theorem bind {x : Action α} {f : α → Action β} (hx : MakesWrites x)
    (hf : ∀ a, (∃ s s', x s = .ok a s') → MakesWrites (f a)) : MakesWrites (x >>= f) := by
  intro s
  obtain ⟨ws, hws⟩ := hx s
  cases hxs : x s with
  | ok a s₁ =>
    obtain ⟨ws', hws'⟩ := hf a ⟨s, s₁, hxs⟩ s₁
    exact ⟨ws ++ ws', .bind hws hxs hws'⟩
  | error e s₁ => exact ⟨ws, .stopped hws hxs⟩

theorem write {b : Builtin} (hwrites : b.writes = true) (base : Nat) (way : List Nat) (index : Nat)
    (name : String) (v : Value) :
    MakesWrites ((Operand.element base way index name).store v b.name) := by
  intro s
  have hstore := Operand.store_element base way index name v b.name s
  cases hwrite : s.heap.writeElement base way index v with
  | ok heap =>
    rw [hwrite] at hstore
    obtain ⟨place, hplace, -, -⟩ := Heap.writeElement_eq_ok hwrite
    exact ⟨[⟨b, place, index, v⟩], .stored hwrites hplace hstore⟩
  | error stop =>
    rw [hwrite] at hstore
    exact ⟨[], .spared (hstore ▸ .error trivial (.refl _))⟩

theorem inCall {act : Action α} (c : Closure) (args : Frame) (h : MakesWrites act) :
    MakesWrites (Action.inCall c args act) := by
  intro s
  cases hfull : s.binders.isFull with
  | true =>
    refine ⟨[], .spared ?_⟩
    rw [inCall_of_isFull hfull]
    exact .error trivial (.refl _)
  | false =>
    obtain ⟨ws, hws⟩ := h { s with binders := s.binders.enter c args }
    exact ⟨ws, .inCall hfull hws⟩

theorem settled {act : Action α} (h : MakesWrites act) (site : Site) :
    MakesWrites (act.settled site) := by
  intro s
  obtain ⟨ws, hws⟩ := h s
  exact ⟨ws, .settled site hws⟩

end MakesWrites

/-- All computations make writes. -/
@[reducible]
def writing (site : Site) : Trait site :=
  .ofSpares site (fun _ ↦ true) MakesWrites .of_spares .bind (fun hwrites _ ↦ .write hwrites)
    .inCall

/-- A call makes writes, however deep the calls in it may go. -/
theorem writes_callWithin (site : Site) (room : Nat) (c : Closure) (args : List Value)
    (s : Session) : ∃ ws, Writes (callWithin site room c args) s ws :=
  Trait.holds_callWithin (P := writing site) (fun _ ↦ rfl) room c args s

/-- Every statement makes writes, and changes the arrays that there are in no other way. -/
theorem writes_execute (site : Site) (t : Tree) (s : Session) :
    ∃ ws, Writes (execute site t) s ws := by
  have hevaluate : MakesWrites (evaluate site t) :=
    Trait.holds_evaluate (P := writing site) (fun _ ↦ rfl) t
  have hoperand : MakesWrites (evaluate site t >>= fun x ↦ x.outcome site) :=
    hevaluate.bind fun x _ ↦ .of_spares (x.detached_outcome site).grows
  exact hoperand.settled site s

end LineBasic
