import LineBasic.Builtin.Data
import LineBasic.Builtin.Device
import LineBasic.Builtin.Jump
import LineBasic.Builtin.Loop
import LineBasic.Proofs.Safety.Values

/-!
# Statement builtins end well

Builtins that keep data, use the devices, loop or jump end with a value or a fault, as those on
values do.  Those that read or write an operand may also find that a handle leads nowhere; but then
the handle was live when it was made, earlier in the statement.

* `Operand.WasLive` — an operand that was made earlier in a statement.
* `Operand.closes_resolve`, `Operand.closes_store` — reading and writing.
-/

set_option autoImplicit false
namespace LineBasic

variable {first s : Session}

/-! ## Operands -/

/-- An operand that was live in an earlier session of the statement. -/
def Operand.WasLive (first s : Session) (operand : Operand) : Prop :=
  ∃ made, first.Evolves made ∧ made.Evolves s ∧ operand.IsLive made

namespace Operand

theorem WasLive.mono {s' : Session} {operand : Operand} (h : operand.WasLive first s)
    (hs : s.Evolves s') : operand.WasLive first s' := by
  obtain ⟨made, hmade, hsince, hlive⟩ := h
  exact ⟨made, hmade, hsince.trans hs, hlive⟩

theorem IsLive.wasLive {operand : Operand} (h : operand.IsLive s) (hs : first.Evolves s) :
    operand.WasLive first s :=
  ⟨s, hs, .refl, h⟩

/-- Whether an operand is something in an array. -/
def IsHandle : Operand → Prop
  | element .. | inexact .. => True
  | _ => False

theorem isLive_of_not_isHandle {operand : Operand} (h : ¬ operand.IsHandle) : operand.IsLive s := by
  cases operand with
  | element | inexact => exact absurd trivial h
  | _ => exact ⟨rfl, nofun⟩

end Operand

/-- Following subscripts fails for two reasons. -/
theorem Heap.onlyFails_follow (h : Heap) (place : Nat) (way : List Nat) :
    OnlyFails (fun stop ↦ stop = .staleArray ∨ stop = .staleSubscript) (h.follow place way) := by
  induction way generalizing place with
  | nil => exact .ok _
  | cons index way ih =>
    rw [follow]
    split
    · exact .error (.inr rfl)
    · exact ih _
    · exact .error (.inl rfl)

theorem Heap.onlyFails_readElement (h : Heap) (base : Nat) (way : List Nat) (index : Nat) :
    OnlyFails (fun stop ↦ stop = .staleArray ∨ stop = .staleSubscript)
      (h.readElement base way index) := by
  refine .bind (h.onlyFails_follow base way) fun place ↦ ?_
  split
  · exact .ok _
  · exact .error (.inr rfl)

/-- Writing an element fails as reading it does. -/
theorem Heap.readElement_of_writeElement {h : Heap} {base : Nat} {way : List Nat} {index : Nat}
    {v : Value} {stop : Stop} (hwrite : h.writeElement base way index v = .error stop) :
    h.readElement base way index = .error stop := by
  rw [writeElement] at hwrite
  rw [readElement]
  cases hfollow : h.follow base way with
  | error e =>
    rw [hfollow] at hwrite
    cases hwrite
    rfl
  | ok place =>
    rw [hfollow] at hwrite
    change (if index < (h.elements place).size then _ else _) = _ at hwrite
    split at hwrite
    · cases hwrite
    · rename_i hindex
      cases hwrite
      simp only [bind, Except.bind]
      rw [Array.getElem?_eq_none (Nat.le_of_not_lt hindex)]
      rfl

namespace Operand

theorem onlyFails_access (h : Heap) (operand : Operand) :
    OnlyFails (fun stop ↦ stop = .staleArray ∨ stop = .staleSubscript) (operand.access h) := by
  intro stop hstop
  cases operand with
  | element base way index name =>
    rw [access] at hstop
    cases hread : h.readElement base way index with
    | ok v => rw [hread] at hstop; cases hstop
    | error e =>
      rw [hread] at hstop
      cases hstop
      exact h.onlyFails_readElement base way index _ hread
  | inexact base way name =>
    rw [access] at hstop
    cases hfollow : h.follow base way with
    | ok place => rw [hfollow] at hstop; cases hstop
    | error e =>
      rw [hfollow] at hstop
      cases hstop
      exact h.onlyFails_follow base way _ hfollow
  | _ => cases hstop

variable {operand : Operand}

/-- An operand that was live and can no longer be accessed. -/
theorem WasLive.mayStop (h : operand.WasLive first s) {stop : Stop}
    (hdead : operand.access s.heap = .error stop) : first.MayStop s stop := by
  obtain ⟨made, hmade, hsince, hlive⟩ := h
  exact .stale (operand.onlyFails_access s.heap stop hdead) hmade hsince hlive.access hdead

theorem closes_miss {α : Type} {Q : α → Session → Prop} {base : Nat} {way : List Nat}
    {name : String} (h : (inexact base way name).WasLive first s) :
    Closes first s Q (miss base way s) := by
  change Closes first s Q ((Action.ofStop (s.heap.follow base way) >>= fun _ ↦
    (throw .misfit : Action α)) s)
  cases hfollow : s.heap.follow base way with
  | error stop =>
    refine .error .refl (h.mayStop ?_)
    rw [access, hfollow]
    rfl
  | ok place =>
    obtain ⟨made, hmade, -, hlive⟩ := h
    exact .error .refl (.misfit (hmade.isUnfit (.inl (hlive.exact base way name rfl))))

/-- Reading an operand.  If it is an element, its value is the one that is there. -/
theorem closes_resolve (hs : first.Evolves s) (h : operand.WasLive first s) :
    Closes first s (fun v s' ↦ ∀ base way index name, operand = .element base way index name →
      s'.heap.readElement base way index = .ok v) (operand.resolve s) := by
  cases operand with
  | reference name =>
    exact ((Action.safe_lookup name).run s hs).mono fun _ _ _ _ _ _ _ _ h ↦ Operand.noConfusion h
  | element base way index name =>
    change Closes first s _ (Action.ofStop (s.heap.readElement base way index) s)
    refine .ofStop (fun stop hstop ↦ h.mayStop ?_) fun v hv ↦ ?_
    · rw [access, hstop]
      rfl
    · rintro _ _ _ _ ⟨⟩
      exact hv
  | inexact base way name => exact closes_miss h
  | value | assignment | jump => exact .ok .refl fun _ _ _ _ h ↦ Operand.noConfusion h

theorem safe_typed (operand : Operand) : Safe first operand.typed := by
  cases operand with
  | value v => exact Action.safe_typed v
  | _ => exact .pure trivial

/-- Writing an operand. -/
theorem closes_store (hs : first.Evolves s) (h : operand.WasLive first s) (v : Value)
    (statement : String) : Closes first s (fun _ _ ↦ True) (operand.store v statement s) := by
  cases operand with
  | reference name =>
    exact (Yields.bind (Action.safe_assign name v) fun _ ↦ .pure trivial).run s hs
  | element base way index name =>
    change Closes first s _ ((do
      let heap ← Action.ofStop (s.heap.writeElement base way index v)
      set { s with heap }
      return name : Action String) s)
    cases hwrite : s.heap.writeElement base way index v with
    | error stop =>
      refine .error .refl (h.mayStop ?_)
      rw [access, Heap.readElement_of_writeElement hwrite]
      rfl
    | ok heap =>
      obtain ⟨place, -, hwrite⟩ := bind_eq_ok.1 hwrite
      split at hwrite
      · cases hwrite
        exact .ok (.single (.written v ‹_›)) trivial
      · cases hwrite
  | inexact base way name => exact closes_miss h
  | value | assignment | jump =>
    exact ((safe_typed _).run s hs).bind hs fun _ _ _ _ _ ↦ .throw (.fault rfl)

theorem closes_resolveAll {operands : List Operand} (hs : first.Evolves s)
    (h : ∀ x ∈ operands, x.WasLive first s) :
    Closes first s (fun _ _ ↦ True) (resolveAll operands s) := by
  rw [resolveAll]
  induction operands generalizing s with
  | nil => exact .pure trivial
  | cons x xs ih =>
    rw [List.forall_mem_cons] at h
    rw [List.mapM_cons]
    refine (closes_resolve hs h.1).bind hs fun v s' hs' hsince _ ↦ ?_
    exact (ih hs' fun y hy ↦ (h.2 y hy).mono hsince).bind hs' fun _ _ _ _ _ ↦ .pure trivial

end Operand

/-- An action that ends well with an operand that is live then. -/
abbrev Lives (first : Session) (act : Action Operand) : Prop :=
  Yields first (fun x s ↦ x.IsLive s) act

/-- An action that ends well with something that is in no array. -/
abbrev Steers (first : Session) (act : Action Operand) : Prop :=
  Yields first (fun x _ ↦ ¬ x.IsHandle) act

theorem Steers.lives {act : Action Operand} (h : Steers first act) : Lives first act :=
  ⟨fun s hs ↦ (h.run s hs).mono fun _ _ _ hx ↦ Operand.isLive_of_not_isHandle hx⟩

/-- A live operand that is read at once. -/
theorem Lives.resolve_bind {β : Type} {Q : β → Session → Prop} {act : Action Operand}
    {f : Value → Action β} (h : Lives first act) (hf : ∀ v, Yields first Q (f v)) :
    Yields first Q (act >>= fun x ↦ x.resolve >>= f) :=
  ⟨fun s hs ↦ (h.run s hs).bind hs fun _ _ hs₁ _ hx ↦
    (Operand.closes_resolve hs₁ (hx.wasLive hs₁)).bind hs₁ fun v s₂ hs₂ _ _ ↦ (hf v).run s₂ hs₂⟩

namespace Builtin

/-! ## Assignments -/

theorem closes_assignOf (b : Builtin) {target operand : Operand} (hs : first.Evolves s)
    (htarget : target.WasLive first s) (hoperand : operand.WasLive first s) :
    Closes first s (fun x _ ↦ ¬ x.IsHandle) (b.assignOf target operand s) :=
  (Operand.closes_resolve hs hoperand).bind hs fun _ _ hs' hsince _ ↦
    (Operand.closes_store hs' (htarget.mono hsince) _ _).bind hs' fun _ _ _ _ _ ↦ .pure id

theorem closes_memberOf (target : Operand) {operand : Operand} (hs : first.Evolves s)
    (hoperand : operand.WasLive first s) :
    Closes first s (fun x _ ↦ ¬ x.IsHandle) (memberOf target operand s) := by
  unfold memberOf
  split
  · exact (Operand.closes_resolve hs hoperand).bind hs fun _ _ _ _ _ ↦ .pure id
  · exact ((Operand.safe_typed _).run s hs).bind hs fun _ _ _ _ _ ↦ .throw (.fault rfl)

/-! ## Loops -/

theorem safe_loopHead (b : Builtin) (operand : Operand) : Safe first (b.loopHead operand) := by
  cases operand with
  | assignment name v => exact .pure trivial
  | _ => exact .fail rfl

theorem steers_enterLoop (name : String) (v : Value) (source : LoopSource) (site : Site) :
    Steers first (enterLoop name v source site) :=
  .bind (Action.safe_assign name v) fun _ ↦ .bind (.modify fun _ ↦ .loops _) fun _ ↦ .pure id

theorem steers_loopOf (b : Builtin) (site : Site) (operand : Operand) :
    Steers first (b.loopOf site operand) := by
  refine .bind (b.safe_loopHead operand) fun p ↦ ?_
  obtain ⟨name, v⟩ := p
  simp only
  split
  · exact steers_enterLoop _ _ _ _
  · exact .bind (Action.safe_typed _) fun _ ↦ .fail rfl

theorem steers_loopOverOf (b : Builtin) (site : Site) (operand : Operand) :
    Steers first (b.loopOverOf site operand) :=
  .bind (b.safe_loopHead operand) fun _ ↦ .bind (b.safe_items _) fun _ ↦ steers_enterLoop _ _ _ _

theorem safe_wrongLoop (named : Operand) (inner : Loop) : Safe first (wrongLoop named inner) := by
  unfold wrongLoop
  split
  · exact .bind (.pure trivial) fun _ ↦ .fail rfl
  · exact .bind (Operand.safe_typed _) fun _ ↦ .fail rfl

theorem safe_checkNamed (inner : Loop) (operands : List Operand) :
    Safe first (checkNamed inner operands) := by
  cases operands with
  | nil => exact .pure trivial
  | cons named rest => exact .ite (fun _ ↦ safe_wrongLoop named inner) fun _ ↦ .pure trivial

theorem safe_putLoops (loops : List Loop) :
    Safe first (modify fun s ↦ { s with loops } : Action Unit) :=
  .modify fun _ ↦ .loops loops

theorem steers_leaveLoop (outer : List Loop) : Steers first (leaveLoop outer) :=
  .bind (safe_putLoops outer) fun _ ↦ .pure id

theorem steers_stepLoop (b : Builtin) (inner : Loop) (outer : List Loop) :
    Steers first (b.stepLoop inner outer) := by
  unfold stepLoop
  split
  · refine .bind (Action.safe_lookup _) fun current ↦ .bind (b.safe_number current) fun x ↦
      .bind (safe_putLoops _) fun _ ↦ ?_
    split
    · exact .bind (Action.safe_assign _ _) fun _ ↦ .pure id
    · exact .bind (Action.safe_assign _ _) fun _ ↦ steers_leaveLoop outer
  · exact .bind (safe_putLoops _) fun _ ↦ .bind (Action.safe_assign _ _) fun _ ↦ .pure id
  · exact steers_leaveLoop outer

theorem steers_nextOf (b : Builtin) (operands : List Operand) :
    Steers first (b.nextOf operands) := by
  refine .get fun s _ ↦ ?_
  cases s.loops with
  | nil => exact .fail rfl
  | cons inner outer =>
    exact .bind (safe_checkNamed inner operands) fun _ ↦ b.steers_stepLoop inner outer

/-! ## Jumps -/

theorem closes_targetLine (b : Builtin) {operand : Operand} (hs : first.Evolves s)
    (h : operand.WasLive first s) :
    Closes first s (fun _ _ ↦ True) (b.targetLine operand s) := by
  have hvalue : ∀ v : Value, Safe first (b.targetLine (.value v)) := by
    refine fun v ↦ .get fun s _ ↦ .bind (.pure (P := fun _ ↦ True) trivial) fun v ↦ ?_
    split
    · exact .bind (.ofNumber _) fun _ ↦ .ite (fun _ ↦ .fail rfl) fun _ ↦ .pure trivial
    · exact .bind (Action.safe_typed _) fun _ ↦ .fail rfl
  have hresolved : Closes first s (fun _ _ ↦ True)
      ((operand.resolve >>= fun v ↦ b.targetLine (.value v)) s) :=
    (Operand.closes_resolve hs h).bind hs fun v s' hs' _ _ ↦ (hvalue v).run s' hs'
  refine .get ?_
  cases operand with
  | reference name =>
    simp only
    cases s.labels.get? name with
    | some line => exact .ok .refl trivial
    | none => exact hresolved
  | _ => exact hresolved

theorem closes_gotoOf (b : Builtin) {operand : Operand} (hs : first.Evolves s)
    (h : operand.WasLive first s) :
    Closes first s (fun x _ ↦ ¬ x.IsHandle) (b.gotoOf operand s) :=
  (b.closes_targetLine hs h).bind hs fun _ _ _ _ _ ↦ .pure id

theorem closes_gosubOf (b : Builtin) (site : Site) {operand : Operand} (hs : first.Evolves s)
    (h : operand.WasLive first s) :
    Closes first s (fun x _ ↦ ¬ x.IsHandle) (b.gosubOf site operand s) :=
  (b.closes_targetLine hs h).bind hs fun _ s' _ _ _ ↦
    .ok (.single (.returns (site.next :: s'.returns))) id

theorem steers_comeBackOf : Steers first comeBackOf := by
  refine .get fun s _ ↦ ?_
  cases s.returns with
  | nil => exact .fail rfl
  | cons site outer => exact .bind (.modify fun _ ↦ .returns outer) fun _ ↦ .pure id

/-! ## Data, labels and options -/

theorem safe_dataOf (values : List Value) : Safe first (dataOf values) :=
  .get fun _ _ ↦ .ite (fun _ ↦ .bind (.modify fun _ ↦ .collected values) fun _ ↦ .pure trivial)
    fun _ ↦ .pure trivial

theorem safe_nextDatum : Safe first nextDatum := by
  refine .of_get fun s _ ↦ ?_
  cases s.data[s.cursor]? with
  | none => exact .throw (.fault rfl)
  | some v => exact .ok (.single (.cursor (s.cursor + 1))) trivial

theorem closes_readOf (b : Builtin) {target : Operand} (hs : first.Evolves s)
    (h : target.WasLive first s) :
    Closes first s (fun x _ ↦ ¬ x.IsHandle) (b.readOf target s) :=
  (safe_nextDatum.run s hs).bind hs fun v _ hs' hsince _ ↦
    (Operand.closes_store hs' (h.mono hsince) v _).bind hs' fun _ _ _ _ _ ↦ .pure id

theorem safe_restoreOf : Safe first restoreOf :=
  .bind (.modify fun _ ↦ .cursor 0) fun _ ↦ .pure trivial

theorem steers_labelOf (site : Site) (operand : Operand) :
    Steers first (labelOf site operand) := by
  refine .of_get fun s _ ↦ ?_
  simp only
  split
  · split
    · rename_i name
      cases s.labels.get? name with
      | some line => exact .throw (.fault rfl)
      | none => exact .ok (.single (.labels (s.labels.insert name site.line))) id
    · exact .throw (.fault rfl)
  · exact .ok .refl id

theorem safe_clearOf : Safe first clearOf :=
  .bind (.modify fun _ ↦ .cleared) fun _ ↦ .pure trivial

theorem safe_flag (b : Builtin) (v : Value) : Safe first (b.flag v) :=
  .bind (b.safe_integer v) fun _ ↦ .ite (fun _ ↦ .pure trivial) fun _ ↦
    .ite (fun _ ↦ .pure trivial) fun _ ↦ .fail rfl

theorem safe_optionBaseOf (b : Builtin) (v : Value) : Safe first (b.optionBaseOf v) := by
  refine .bind (b.safe_flag v) fun isOne ↦ .bind (.modify fun _ ↦ ?_) fun _ ↦ .pure trivial
  cases isOne with
  | false => exact .indexBase 0
  | true => exact .indexBase 1

theorem safe_optionDebugOf (b : Builtin) (v : Value) : Safe first (b.optionDebugOf v) :=
  .bind (b.safe_flag v) fun isOn ↦ .bind (.modify fun _ ↦ .debugging isOn) fun _ ↦ .pure trivial

theorem safe_optionTraceOf (b : Builtin) (v : Value) : Safe first (b.optionTraceOf v) :=
  .bind (b.safe_flag v) fun isOn ↦ .bind (.modify fun _ ↦ .tracing isOn) fun _ ↦ .pure trivial

/-! ## Console -/

theorem safe_printedText (asCode : Bool) (v : Value) : Safe first (printedText asCode v) := by
  unfold printedText
  split
  · refine .bind (.ofNumber _) fun n ↦ ?_
    split
    · exact .pure trivial
    · exact .inherent trivial
    · exact .inherent trivial
  · exact Action.safe_describe _

theorem safe_printRest (asCode : Bool) (separators : List Separator) (vs : List Value) :
    Safe first (printRest asCode separators vs) := by
  induction vs generalizing separators with
  | nil => exact .pure trivial
  | cons v vs ih =>
    have hrest : Safe first (do
        Action.print (← printedText asCode v)
        printRest asCode separators.tail vs) :=
      .bind (safe_printedText asCode v) fun _ ↦ .bind (Action.safe_print _) fun _ ↦ ih _
    rw [printRest]
    exact .ite (fun _ ↦ .bind (Action.safe_print _) fun _ ↦ hrest) fun _ ↦ hrest

theorem safe_printOf (asCode : Bool) (separators : List Separator) (vs : List Value) :
    Safe first (printOf asCode separators vs) := by
  have hend : Safe first (do
      if !leavesLineOpen vs then Action.print "\n"
      return .null : Action Value) :=
    .ite (fun _ ↦ .bind (Action.safe_print _) fun _ ↦ .pure trivial) fun _ ↦ .pure trivial
  cases vs with
  | nil => exact hend
  | cons v vs =>
    exact .bind (safe_printedText asCode v) fun _ ↦ .bind (Action.safe_print _) fun _ ↦
      .bind (safe_printRest asCode separators vs) fun _ ↦ hend

theorem closes_inputOf (b : Builtin) {target : Operand} (hs : first.Evolves s)
    (h : target.WasLive first s) :
    Closes first s (fun x _ ↦ ¬ x.IsHandle) (b.inputOf target s) := by
  refine ((Action.safe_print "? ").run s hs).bind hs fun _ s₁ hs₁ hsince₁ _ ↦ ?_
  refine (Action.safe_readLine.run s₁ hs₁).bind hs₁ fun line s₂ hs₂ hsince₂ _ ↦ ?_
  exact (Operand.closes_store hs₂ (h.mono (hsince₁.trans hsince₂)) _ _).bind hs₂
    fun _ _ _ _ _ ↦ .pure id

theorem safe_readTextOf : Safe first readTextOf :=
  .bind Action.safe_readLine fun _ ↦ .pure trivial

theorem safe_clearScreenOf : Safe first clearScreenOf :=
  .bind (.modify fun _ ↦ .printed _) fun _ ↦ .pure trivial

theorem safe_control (text : String) : Safe first (control text) :=
  .bind (Action.safe_print _) fun _ ↦ .pure trivial

/-- The row and the column are counted from the index base; what is to be added to them is a number
if there is one. -/
theorem safe_moveCursorOf (b : Builtin) (row column : Value) :
    Safe first (b.moveCursorOf row column) := by
  refine .get fun s hs ↦ .ofFitting (Action.onlyFails_sub_indexBase hs 1) fun shift hshift ↦ ?_
  have hadd : ∀ n : Int, OnlyFails (fun stop ↦ stop = .misfit ∧ first.IsUnfit)
      (Quantity.add n shift) := fun n ↦ (Quantity.onlyFails_compute _ _ _ _).mono fun stop h ↦ by
    obtain ⟨-, hn | hreal⟩ := h
    · cases hn
    · exact absurd hreal (Quantity.real?_of_sub hshift)
  exact .bind (b.safe_integer row) fun _ ↦ .ofFitting (hadd _) fun _ _ ↦
    .bind (b.safe_integer column) fun _ ↦ .ofFitting (hadd _) fun _ _ ↦ safe_control _

theorem safe_textForeOf (b : Builtin) (v : Value) : Safe first (b.textForeOf v) :=
  .bind (b.safe_integer v) fun _ ↦ safe_control _

theorem safe_textBackOf (b : Builtin) (v : Value) : Safe first (b.textBackOf v) :=
  .bind (b.safe_integer v) fun _ ↦ safe_control _

/-! ## Memory -/

theorem safe_writeByte (address n : Int) : Safe first (writeByte address n) := by
  refine .of_get fun s _ ↦ ?_
  cases h : s.bus.poke address n with
  | error f =>
    obtain rfl := s.bus.noMemory_of_poke address n f h
    exact .throw (.fault rfl)
  | ok bus => exact .ok (.single (.bus bus)) trivial

theorem safe_readByte (address : Int) : Safe first (readByte address) :=
  .get fun s _ ↦ .bind (.ofFault ((s.bus.noMemory_of_peek address).mono fun _ h ↦ h ▸ rfl))
    fun _ ↦ .pure trivial

theorem safe_pokeOf (b : Builtin) (address v : Value) : Safe first (b.pokeOf address v) :=
  .bind (b.safe_integer address) fun _ ↦ .bind (b.safe_integer v) fun _ ↦
    .bind (safe_writeByte _ _) fun _ ↦ .pure trivial

theorem safe_peekOf (b : Builtin) (address : Value) : Safe first (b.peekOf address) :=
  .bind (b.safe_integer address) fun _ ↦ safe_readByte _

theorem safe_plotOf (b : Builtin) (x y v : Value) : Safe first (b.plotOf x y v) :=
  .bind (b.safe_integer x) fun _ ↦ .bind (b.safe_integer y) fun _ ↦
    .ite (fun _ ↦ .fail rfl) fun _ ↦ .bind (b.safe_integer v) fun _ ↦
      .bind (safe_writeByte _ _) fun _ ↦ .pure trivial

theorem safe_keysDownOf : Safe first keysDownOf :=
  .bind (safe_writeByte _ _) fun _ ↦ .bind (.mapM safe_readByte _) fun _ ↦ Action.safe_newArray _

/-! ## Debugging -/

theorem safe_printMonadOf (v : Value) : Safe first (printMonadOf v) :=
  .ite (fun _ ↦ .bind (Action.safe_describe v) fun _ ↦
      .bind (Action.safe_print _) fun _ ↦ .pure trivial)
    fun _ ↦ .bind (Action.safe_typed v) fun _ ↦ .fail rfl

theorem safe_resolveOf (site : Site) (v : Value) : Safe first (resolveOf site v) := by
  have hend : Safe first (do
      Action.print ((← Action.describe v) ++ "\n")
      return v) :=
    .bind (Action.safe_describe v) fun _ ↦ .bind (Action.safe_print _) fun _ ↦ .pure trivial
  cases v with
  | closure c => exact .bind (Action.safe_print _) fun _ ↦ hend
  | _ => exact hend

theorem steers_resolveVarOf (operand : Operand) : Steers first (resolveVarOf operand) := by
  unfold resolveVarOf
  split
  · rename_i name
    refine .get fun s _ ↦ ?_
    cases s.vars.lookup? name with
    | some v =>
      exact .bind (Action.safe_describe v) fun _ ↦ .bind (Action.safe_print _) fun _ ↦ .pure id
    | none => exact .fail rfl
  · exact .bind (Operand.safe_typed _) fun _ ↦ .fail rfl

end Builtin
end LineBasic
