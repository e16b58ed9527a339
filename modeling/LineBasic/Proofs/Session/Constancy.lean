import LineBasic.Proofs.Safety.Execution
import LineBasic.Proofs.Session.Reachable
import LineBasic.Proofs.Value.Resting
import LineBasic.Proofs.Writes.Builtins

/-!
# What changes and what does not

Of all values only arrays change, and they keep their lengths.  So ranges that are kept stand at
their start, and the constants are what they were at first; `NIL` too, since an empty array has no
elements to write to.

* `Session.survives_resting` — ranges that are kept.
* `Session.KeepsConstants` — the constants of a session.
* `changes_by_writes` — the result.
-/

set_option autoImplicit false
namespace LineBasic

namespace Session

/-! ## Ranges -/

theorem survives_resting : Survives fun s ↦ s.binders.frames = [] ∧ s.All Value.IsResting where
  books hs hs' := ⟨hs'.binders ▸ hs.1, hs.2.books hs'⟩
  unwind hs := ⟨rfl, hs.2.unwind⟩
  returned hs := ⟨rfl, ⟨hs.2.heap, hs.2.vars, hs.2.loops, hs.2.data⟩⟩
  reset _ := ⟨rfl, all_reset _ _⟩
  execute site t ht := by
    obtain ⟨u, hu, rfl⟩ := ht.isResolved
    refine ⟨fun s ⟨hframes, hs⟩ ↦ ?_⟩
    exact (ends_execute_resting site (Tree.values_resolve hu) hframes hs).mono
      (fun _ hback ↦ ⟨hback.binders ▸ hframes, hback.all⟩) (fun _ _ ↦ trivial) fun _ ↦ id

/-! ## Constants -/

/-- A session in which the array of `NIL` is empty, and no variable has the name of a constant. -/
structure KeepsConstants (s : Session) : Prop where
  hasNil : nilPlace < s.heap.size
  nil : s.heap.elements nilPlace = #[]
  names : ∀ e ∈ s.vars.table.entries, Variables.isConstant e.1 = false

variable {s s' : Session}

theorem KeepsConstants.change (hs : s.KeepsConstants) (h : s.Change s') : s'.KeepsConstants := by
  cases h with
  | allocated elements =>
    have hgrows := s.heap.grows_alloc elements
    exact ⟨Nat.lt_of_lt_of_le hs.hasNil hgrows.size,
      (hgrows.elements nilPlace hs.hasNil).trans hs.nil, hs.names⟩
  | @written place index v hindex =>
    refine ⟨by rw [Heap.size_set]; exact hs.hasNil, ?_, hs.names⟩
    rw [Heap.elements_set]
    split
    · rename_i hplace
      rw [hplace, hs.nil] at hindex
      cases hindex
    · exact hs.nil
  | @assigned _ name v h =>
    obtain ⟨vars, hvars, rfl⟩ := eq_of_assign h
    refine ⟨hs.hasNil, hs.nil, ?_⟩
    rw [Variables.define] at hvars
    split at hvars
    · cases hvars
    · rename_i hconstant
      cases hvars
      refine Table.forall_mem_put ?_ hs.names
      rw [Variables.isConstant, Text.upper_upper]
      exact Bool.eq_false_iff.2 hconstant
  | cleared => exact ⟨hs.hasNil, hs.nil, List.forall_mem_nil _⟩
  | _ => exact ⟨hs.hasNil, hs.nil, hs.names⟩

theorem KeepsConstants.evolves (hs : s.KeepsConstants) (h : s.Evolves s') : s'.KeepsConstants := by
  induction h with
  | refl => exact hs
  | tail _ hchange ih => exact ih.change hchange

theorem keepsConstants_initial {s : Session} (hheap : s.heap = .initial)
    (hvars : s.vars = .empty) : s.KeepsConstants where
  hasNil := hheap ▸ Nat.zero_lt_one
  nil := hheap ▸ rfl
  names := hvars ▸ List.forall_mem_nil _

theorem survives_keepsConstants : Survives KeepsConstants where
  books hs hs' := ⟨hs'.heap ▸ hs.hasNil, hs'.heap ▸ hs.nil, hs'.vars ▸ hs.names⟩
  unwind hs := ⟨hs.hasNil, hs.nil, hs.names⟩
  returned hs := ⟨hs.hasNil, hs.nil, hs.names⟩
  reset _ := keepsConstants_initial rfl rfl
  execute site t _ := by
    refine ⟨fun s hs ↦ ?_⟩
    obtain ⟨p, s', hend, hevolves⟩ | ⟨stop, s', hend, hevolves, -⟩ := closes_execute site t s
    · exact hend ▸ .ok trivial (hs.evolves hevolves)
    · exact hend ▸ .error trivial (hs.evolves hevolves)

theorem lookup_of_constant? {name : String} {v : Value} (h : constant? (Text.upper name) = some v) :
    s.lookup name = .ok v := by
  unfold lookup
  simp only [Variables.isConstant, Variables.lookup?, Text.upper_upper, h]
  rfl

end Session

/-! ## The result -/

/-- A statement does to the arrays that there are nothing but writes, and each of them is made by an
assignment, `READ` or `INPUT` that stores a value through the handle of an element.  So arrays keep
their lengths, and what is no longer in an array was written over.  All other builtins change arrays
only through the functions that they call, however these change them.  What builtins on sequences
give shares no elements with an array from before, but for the ends of a sequence, which are items
of it, what a monad holds, and a fold, which gives its start or what its function gave.  In reachable
dialogues all ranges that are kept stand at their start, and the constants have the values that they
started with. -/
theorem changes_by_writes :
    (∀ site t s, ∃ ws, Writes (execute site t) s ws ∧ (∀ w ∈ ws, w.builtin.writes = true) ∧
      Ends (fun s' ↦ ∀ place < s.heap.size,
          (s'.heap.elements place).size = (s.heap.elements place).size ∧
          ∀ index : Nat, (s'.heap.elements place)[index]? ≠ (s.heap.elements place)[index]? →
            ∃ w ∈ ws, w.place = place ∧ w.index = index)
        (fun _ ↦ True) (fun _ ↦ True) (execute site t s)) ∧
    (∀ R, Heap.Allows R → ∀ enter, (∀ c args, ChangesHeap R (enter c args)) →
      ∀ b : Builtin, b.writes = false → ∀ site separators operands,
        ChangesHeap R (b.invoke enter site separators operands)) ∧
    (∀ b : Builtin, b.isOnSequences = true → ∀ site room separators operands s place s',
      b.invoke (callWithin site room) site separators operands s = .ok (.value (.array place)) s' →
        s.heap.size ≤ place ∨ Builtin.HandsOn (callWithin site room) s place b operands) ∧
    ∀ d, Dialogue.Reachable d →
      (∀ v, d.session.Stores v → v.IsResting) ∧
      (∀ name v, constant? (Text.upper name) = some v → d.session.lookup name = .ok v) ∧
      d.session.heap.elements nilPlace = #[] ∧
      ∀ e ∈ d.session.vars.table.entries, Variables.isConstant e.1 = false := by
  refine ⟨fun site t s ↦ ?_, ?_, ?_, fun d hd ↦ ?_⟩
  · obtain ⟨ws, hws⟩ := writes_execute site t s
    refine ⟨ws, hws, hws.builtin, hws.ends.mono (fun s' hs' place hplace ↦ ?_) (fun _ ↦ id) fun _ ↦ id⟩
    rw [hs'.elements place hplace]
    exact ⟨Write.size_replay, fun index ↦ Write.exists_mem_of_replay_ne⟩
  · exact fun R hR enter henter b hb site ↦ Builtin.heap_invoke hR hb henter site
  · intro b hb site room separators operands s place s' h
    refine Builtin.isNew_or_handsOn (fun c args s₁ ↦ ?_) hb h
    obtain ⟨ws, hws⟩ := writes_callWithin site room c args s₁
    exact hws.ends.mono (fun _ ↦ Heap.Written.size) (fun _ ↦ id) fun _ ↦ id
  · have hresting := hd.of_survives Session.survives_resting fun settings console bus seed ↦
      ⟨rfl, Session.all_start _ settings console bus seed⟩
    have hconstants := hd.of_survives Session.survives_keepsConstants fun _ _ _ _ ↦
      Session.keepsConstants_initial rfl rfl
    exact ⟨fun v hv ↦ Session.good_of_stores (W := resting) (fun _ ↦ trivial) hresting.2 hv,
      fun _ _ ↦ Session.lookup_of_constant?, hconstants.nil, hconstants.names⟩

/-- A function that gives its argument is mapped over `NIL`, which changes no array, and an item is
put behind `NIL`, which makes a new one. -/
theorem changes_by_writes_of_nil : ∃ d place s', Dialogue.Reachable d ∧
    ChangesHeap Heap.Grows (Builtin.invoke (fun _ args ↦ return args.headD .null) .map ⟨1, 0⟩ []
      [.reference "ID", .reference "NIL"]) ∧
    Builtin.invoke (callWithin ⟨1, 0⟩ 0) .snoc ⟨1, 0⟩ [] [.reference "NIL", .value (.boolean true)]
      d.session = .ok (.value (.array place)) s' ∧
    d.session.heap.size ≤ place ∧ d.session.lookup "Nil" = .ok (.array nilPlace) ∧
    d.session.heap.elements nilPlace = #[] := by
  let d : Dialogue := { session := .start {} {} .unavailable 0, files := .memory {} }
  have hd : Dialogue.Reachable d := .start {} {} .unavailable 0 (.memory {})
  obtain ⟨s', hsnoc⟩ : ∃ s', Builtin.invoke (callWithin ⟨1, 0⟩ 0) .snoc ⟨1, 0⟩ []
      [.reference "NIL", .value (.boolean true)] d.session = .ok (.value (.array 1)) s' := ⟨_, rfl⟩
  obtain ⟨-, hinvoke, hgives, hkept⟩ := changes_by_writes
  obtain ⟨-, hconstants, hnil, -⟩ := hkept d hd
  refine ⟨d, 1, s', hd, ?_, hsnoc, ?_, hconstants "Nil" _ rfl, hnil⟩
  · exact hinvoke _ Heap.allows_grows _ (fun _ _ _ ↦ .ok trivial (.refl _)) .map rfl _ _ _
  · obtain hnew | hhanded := hgives .snoc rfl ⟨1, 0⟩ 0 [] _ d.session 1 s' hsnoc
    · exact hnew
    · cases hhanded

/-- After `A = {TRUE}`, the fold `FOLD([X, Y] ~> X, A, NIL)` gives the array that it starts with. -/
theorem not_forall_result_new : ¬ ∀ past s, Session.Reachable past s →
    ∀ b : Builtin, b.isOnSequences = true → ∀ site room separators operands place s',
      b.invoke (callWithin site room) site separators operands s = .ok (.value (.array place)) s' →
        ∀ x ∈ operands, x.resolve s ≠ .ok (.array place) s := by
  intro h
  let assignment : Tree := .binary .assign (.ident "A") (.array [.boolean true])
  have hassignment : assignment.resolve.IsResolved :=
    ⟨assignment, .expression ⟨trivial, ⟨trivial, trivial⟩⟩, rfl⟩
  obtain ⟨p, s, hs, hA, s', hfold⟩ : ∃ p s, execute ⟨1, 0⟩ assignment.resolve
      (.start {} {} .unavailable 0) = .ok p s ∧ (Operand.reference "A").resolve s = .ok (.array 1) s ∧
      ∃ s', Builtin.invoke (callWithin ⟨1, 1⟩ 0) .fold ⟨1, 1⟩ []
        [.value (.closure (.mk 2 (.parameter 0 0) [] "")), .reference "A", .reference "NIL"] s =
          .ok (.value (.array 1)) s' :=
    ⟨_, _, rfl, rfl, _, rfl⟩
  have hreachable := (Session.Reachable.start {} {} .unavailable 0).executed hassignment hs
  exact h _ s hreachable .fold rfl ⟨1, 1⟩ 0 [] _ 1 s' hfold (.reference "A") (by simp) hA

end LineBasic
