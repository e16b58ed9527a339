import LineBasic.Builtin.Data
import LineBasic.Builtin.Device
import LineBasic.Builtin.Jump
import LineBasic.Builtin.Loop
import LineBasic.Proofs.Lockstep.Values

/-!
# Statement builtins in lockstep

Builtins that assign, loop, jump, keep data and use the devices do the same whatever frames are in
force.  What they store and return is good if what they are given is.
-/

set_option autoImplicit false
namespace LineBasic.Builtin

variable {W : World} {F F' : List Frame}

/-! ## Assignments -/

theorem good_nameFunction (target : Operand) {v : Value} (hv : W.good v) :
    W.good (nameFunction target v) := by
  unfold nameFunction
  split
  · split
    · exact W.rename _ hv
    · exact hv
  · exact hv

theorem steady_assignOf (b : Builtin) (target : Operand) {operand : Operand}
    (h : operand.IsGood W) : Steady W F F' (Operand.IsGood W) (b.assignOf target operand) :=
  .bind (Operand.steady_resolve h) fun _ hv ↦
    .bind (target.steady_store (good_nameFunction target hv) b.name) fun _ _ ↦
      .pure (good_nameFunction target hv)

theorem steady_memberOf (target : Operand) {operand : Operand} (h : operand.IsGood W) :
    Steady W F F' (Operand.IsGood W) (memberOf target operand) := by
  unfold memberOf
  split
  · exact .bind (Operand.steady_resolve h) fun _ hv ↦ .pure hv
  · exact .bind (Operand.steady_typed _) fun _ _ ↦ .fail trivial

/-! ## Loops -/

theorem steady_loopHead (b : Builtin) {operand : Operand} (h : operand.IsGood W) :
    Steady W F F' (fun p ↦ W.good p.2) (b.loopHead operand) := by
  cases operand with
  | assignment name v => exact .pure h
  | _ => exact .fail trivial

theorem steady_enterLoop (name : String) {first : Value} (hfirst : W.good first)
    {source : LoopSource} (hsource : source.All W.good) (site : Site) :
    Steady W F F' (Operand.IsGood W) (enterLoop name first source site) :=
  .bind (Action.steady_assign name hfirst) fun _ _ ↦
    .bind (P := fun _ ↦ True) (.modify trivial fun _ hs ↦
      ⟨rfl, rfl, hs.heap, hs.vars, List.forall_mem_cons.2 ⟨hsource, hs.loops⟩, hs.data⟩)
      fun _ _ ↦ .pure W.null

theorem steady_loopOf (b : Builtin) (site : Site) {operand : Operand} (h : operand.IsGood W) :
    Steady W F F' (Operand.IsGood W) (b.loopOf site operand) := by
  refine .bind (b.steady_loopHead h) fun p hp ↦ ?_
  obtain ⟨name, v⟩ := p
  simp only
  split
  · have hsource : ∀ g, LoopSource.All W.good (.range g) := fun _ ↦ trivial
    exact steady_enterLoop name (W.number _) (hsource _) site
  · exact .bind (Action.steady_typed _) fun _ _ ↦ .fail trivial

theorem steady_loopOverOf (b : Builtin) (site : Site) {operand : Operand} (h : operand.IsGood W) :
    Steady W F F' (Operand.IsGood W) (b.loopOverOf site operand) := by
  refine .bind (b.steady_loopHead h) fun p hp ↦ .bind (b.steady_items hp) fun items hitems ↦ ?_
  have hfirst : W.good (items.headD .null) := by
    cases items with
    | nil => exact W.null
    | cons v vs => exact hitems v (List.mem_cons_self ..)
  have hrest : LoopSource.All W.good (.rest items.tail) := fun v hv ↦
    hitems v (List.mem_of_mem_tail hv)
  exact steady_enterLoop _ hfirst hrest site

theorem steady_wrongLoop (named : Operand) (inner : Loop) :
    Steady W F F' (fun _ ↦ True) (wrongLoop named inner) := by
  unfold wrongLoop
  split
  · exact .bind (P := fun _ ↦ True) (.pure trivial) fun _ _ ↦ .fail trivial
  · exact .bind (Operand.steady_typed _) fun _ _ ↦ .fail trivial

theorem steady_putLoops {loops : List Loop} (h : ∀ loop ∈ loops, loop.source.All W.good) :
    Steady W F F' (fun _ ↦ True) (modify fun s ↦ { s with loops } : Action Unit) :=
  .modify trivial fun _ hs ↦ ⟨rfl, rfl, hs.heap, hs.vars, h, hs.data⟩

theorem steady_checkNamed (inner : Loop) (operands : List Operand) :
    Steady W F F' (fun _ ↦ True) (checkNamed inner operands) := by
  cases operands with
  | nil => exact .pure trivial
  | cons named rest => exact .ite (fun _ ↦ steady_wrongLoop named inner) fun _ ↦ .pure trivial

theorem steady_leaveLoop {outer : List Loop} (houter : ∀ loop ∈ outer, loop.source.All W.good) :
    Steady W F F' (Operand.IsGood W) (leaveLoop outer) :=
  .bind (steady_putLoops houter) fun _ _ ↦ .pure W.null

theorem steady_stepLoop (b : Builtin) {inner : Loop} {outer : List Loop}
    (hinner : inner.source.All W.good) (houter : ∀ loop ∈ outer, loop.source.All W.good) :
    Steady W F F' (Operand.IsGood W) (b.stepLoop inner outer) := by
  have hput : ∀ {source : LoopSource}, source.All W.good →
      ∀ loop ∈ { inner with source } :: outer, loop.source.All W.good := fun hsource ↦
    List.forall_mem_cons.2 ⟨hsource, houter⟩
  unfold stepLoop
  split
  · refine .bind (Action.steady_lookup_any inner.name) fun current _ ↦ ?_
    refine .bind (b.steady_number current) fun x _ ↦ ?_
    refine .bind (steady_putLoops (hput trivial)) fun _ _ ↦ ?_
    split
    · exact .bind (Action.steady_assign inner.name (W.number _)) fun _ _ ↦ .pure trivial
    · exact .bind (Action.steady_assign inner.name (W.number _)) fun _ _ ↦ steady_leaveLoop houter
  · rename_i v more hsource
    rw [hsource] at hinner
    have hvalues : W.good v ∧ ∀ w ∈ more, W.good w := List.forall_mem_cons.1 hinner
    have hmore : LoopSource.All W.good (.rest more) := hvalues.2
    refine .bind (steady_putLoops (hput hmore)) fun _ _ ↦ ?_
    exact .bind (Action.steady_assign inner.name hvalues.1) fun _ _ ↦ .pure trivial
  · exact steady_leaveLoop houter

theorem steady_nextOf (b : Builtin) (operands : List Operand) :
    Steady W F F' (Operand.IsGood W) (b.nextOf operands) := by
  refine .get fun s _ hs ↦ ?_
  rw [Session.withFrames_loops]
  have hloops := hs.loops
  cases hs : s.loops with
  | nil => exact .fail trivial
  | cons inner outer =>
    rw [hs, List.forall_mem_cons] at hloops
    exact .bind (steady_checkNamed inner operands) fun _ _ ↦ b.steady_stepLoop hloops.1 hloops.2

/-! ## Jumps -/

theorem steady_targetLine (b : Builtin) {operand : Operand} (h : operand.IsGood W) :
    Steady W F F' (fun _ ↦ True) (b.targetLine operand) := by
  refine .get fun s _ _ ↦ ?_
  rw [Session.withFrames_labels]
  simp only
  split
  · exact .pure trivial
  · refine .bind (Operand.steady_resolve h) fun v _ ↦ ?_
    split
    · exact .bind (.ofNumber fun _ _ ↦ trivial) fun _ _ ↦
        .ite (fun _ ↦ .fail trivial) fun _ ↦ .pure trivial
    · exact .bind (Action.steady_typed _) fun _ _ ↦ .fail trivial

theorem steady_gotoOf (b : Builtin) {operand : Operand} (h : operand.IsGood W) :
    Steady W F F' (Operand.IsGood W) (b.gotoOf operand) :=
  .bind (b.steady_targetLine h) fun _ _ ↦ .pure trivial

theorem steady_gosubOf (b : Builtin) (site : Site) {operand : Operand} (h : operand.IsGood W) :
    Steady W F F' (Operand.IsGood W) (b.gosubOf site operand) :=
  .bind (b.steady_targetLine h) fun _ _ ↦
    .modify_bind (fun _ hs ↦ ⟨rfl, rfl, hs.heap, hs.vars, hs.loops, hs.data⟩) (.pure trivial)

theorem steady_comeBackOf : Steady W F F' (Operand.IsGood W) comeBackOf := by
  refine .get fun s _ _ ↦ ?_
  rw [Session.withFrames_returns]
  cases s.returns with
  | nil => exact .fail trivial
  | cons site outer =>
    exact .modify_bind (fun _ hs ↦ ⟨rfl, rfl, hs.heap, hs.vars, hs.loops, hs.data⟩) (.pure trivial)

/-! ## Data, labels and options -/

theorem steady_dataOf {values : List Value} (h : ∀ v ∈ values, W.good v) :
    Steady W F F' W.good (dataOf values) := by
  have hadd : Steady W F F' (fun _ ↦ True)
      (modify fun s ↦ { s with data := s.data ++ values } : Action Unit) :=
    .modify trivial fun _ hs ↦
      ⟨rfl, rfl, hs.heap, hs.vars, hs.loops, List.forall_mem_append.2 ⟨hs.data, h⟩⟩
  exact .get fun s _ _ ↦ .ite (fun _ ↦ .bind hadd fun _ _ ↦ .pure W.null) fun _ ↦ .pure W.null

theorem steady_nextDatum : Steady W F F' W.good nextDatum := by
  refine .of_get fun s _ hs ↦ ?_
  rw [Session.withFrames_data, Session.withFrames_cursor]
  cases h : s.data[s.cursor]? with
  | none => exact .fail hs trivial
  | some v =>
    exact .ok (hs.data v (List.mem_of_getElem? h))
      ⟨rfl, rfl, hs.heap, hs.vars, hs.loops, hs.data⟩

theorem steady_readOf (b : Builtin) (target : Operand) :
    Steady W F F' (Operand.IsGood W) (b.readOf target) :=
  .bind steady_nextDatum fun _ hv ↦ .bind (target.steady_store hv b.name) fun _ _ ↦ .pure hv

theorem steady_restoreOf : Steady W F F' W.good restoreOf :=
  .modify_bind (fun _ hs ↦ ⟨rfl, rfl, hs.heap, hs.vars, hs.loops, hs.data⟩) (.pure W.null)

theorem steady_labelOf (site : Site) (operand : Operand) :
    Steady W F F' (Operand.IsGood W) (labelOf site operand) := by
  refine .of_get fun s _ hs ↦ ?_
  rw [Session.withFrames_isCollecting, Session.withFrames_labels]
  cases s.isCollecting with
  | false => exact .ok W.null (.refl hs)
  | true =>
    cases operand with
    | reference name =>
      simp only [if_true]
      cases s.labels.get? name with
      | some line => exact .fail hs trivial
      | none => exact .ok W.null ⟨rfl, rfl, hs.heap, hs.vars, hs.loops, hs.data⟩
    | _ => exact .fail hs trivial

theorem steady_clearOf : Steady W F F' W.good clearOf :=
  .modify_bind (fun _ hs ↦ ⟨rfl, rfl, hs.heap, List.forall_mem_nil _, hs.loops, hs.data⟩)
    (.pure W.null)

theorem steady_flag (b : Builtin) (v : Value) : Steady W F F' (fun _ ↦ True) (b.flag v) :=
  .bind (b.steady_integer v) fun _ _ ↦ .ite (fun _ ↦ .pure trivial) fun _ ↦
    .ite (fun _ ↦ .pure trivial) fun _ ↦ .fail trivial

theorem steady_optionBaseOf (b : Builtin) (v : Value) :
    Steady W F F' W.good (b.optionBaseOf v) :=
  .bind (b.steady_flag v) fun _ _ ↦
    .modify_bind (fun _ hs ↦ ⟨rfl, rfl, hs.heap, hs.vars, hs.loops, hs.data⟩) (.pure W.null)

theorem steady_optionDebugOf (b : Builtin) (v : Value) :
    Steady W F F' W.good (b.optionDebugOf v) :=
  .bind (b.steady_flag v) fun _ _ ↦
    .modify_bind (fun _ hs ↦ ⟨rfl, rfl, hs.heap, hs.vars, hs.loops, hs.data⟩) (.pure W.null)

theorem steady_optionTraceOf (b : Builtin) (v : Value) :
    Steady W F F' W.good (b.optionTraceOf v) :=
  .bind (b.steady_flag v) fun _ _ ↦
    .modify_bind (fun _ hs ↦ ⟨rfl, rfl, hs.heap, hs.vars, hs.loops, hs.data⟩) (.pure W.null)

/-! ## Console -/

theorem steady_printedText (asCode : Bool) (v : Value) :
    Steady W F F' (fun _ ↦ True) (printedText asCode v) := by
  unfold printedText
  split
  · refine .bind (.ofNumber fun _ _ ↦ trivial) fun n _ ↦ ?_
    split
    · exact .pure trivial
    · exact .throw (W.stops_other id)
    · exact .throw (W.stops_other id)
  · exact Action.steady_describe _

theorem steady_printRest (asCode : Bool) (separators : List Separator) (vs : List Value) :
    Steady W F F' (fun _ ↦ True) (printRest asCode separators vs) := by
  induction vs generalizing separators with
  | nil => exact .pure trivial
  | cons v vs ih =>
    have hrest : Steady W F F' (fun _ ↦ True) (do
        Action.print (← printedText asCode v)
        printRest asCode separators.tail vs) :=
      .bind (steady_printedText asCode v) fun _ _ ↦ .bind (Action.steady_print _) fun _ _ ↦ ih _
    rw [printRest]
    exact .ite (fun _ ↦ .bind (Action.steady_print _) fun _ _ ↦ hrest) fun _ ↦ hrest

theorem steady_printOf (asCode : Bool) (separators : List Separator) (vs : List Value) :
    Steady W F F' W.good (printOf asCode separators vs) := by
  have hend : Steady W F F' W.good (do
      if !leavesLineOpen vs then Action.print "\n"
      return .null) :=
    .ite (fun _ ↦ .bind (Action.steady_print _) fun _ _ ↦ .pure W.null) fun _ ↦ .pure W.null
  cases vs with
  | nil => exact hend
  | cons v vs =>
    exact .bind (steady_printedText asCode v) fun _ _ ↦ .bind (Action.steady_print _) fun _ _ ↦
      .bind (steady_printRest asCode separators vs) fun _ _ ↦ hend

theorem good_inputValue (line : String) : W.good (inputValue line) := by
  unfold inputValue
  simp only
  split
  · exact W.number _
  · exact W.string _

theorem steady_inputOf (b : Builtin) (target : Operand) :
    Steady W F F' (Operand.IsGood W) (b.inputOf target) :=
  .bind (Action.steady_print _) fun _ _ ↦ .bind Action.steady_readLine fun line _ ↦
    .bind (target.steady_store (good_inputValue line) b.name) fun _ _ ↦ .pure (good_inputValue line)

theorem steady_readTextOf : Steady W F F' W.good readTextOf :=
  .bind Action.steady_readLine fun _ _ ↦ .pure (W.string _)

theorem steady_clearScreenOf : Steady W F F' W.good clearScreenOf :=
  .modify_bind (fun _ hs ↦ ⟨rfl, rfl, hs.heap, hs.vars, hs.loops, hs.data⟩) (.pure W.null)

theorem steady_control (text : String) : Steady W F F' W.good (control text) :=
  .bind (Action.steady_print _) fun _ _ ↦ .pure W.null

theorem steady_moveCursorOf (b : Builtin) (row column : Value) :
    Steady W F F' W.good (b.moveCursorOf row column) :=
  .get fun _ _ _ ↦ .bind (.ofStop (Quantity.faultless_sub _ _) fun _ _ ↦ trivial) fun _ _ ↦
    .bind (b.steady_integer row) fun _ _ ↦
    .bind (.ofStop (Quantity.faultless_add _ _) fun _ _ ↦ trivial) fun _ _ ↦
    .bind (b.steady_integer column) fun _ _ ↦
    .bind (.ofStop (Quantity.faultless_add _ _) fun _ _ ↦ trivial) fun _ _ ↦ steady_control _

theorem steady_textForeOf (b : Builtin) (v : Value) : Steady W F F' W.good (b.textForeOf v) :=
  .bind (b.steady_integer v) fun _ _ ↦ steady_control _

theorem steady_textBackOf (b : Builtin) (v : Value) : Steady W F F' W.good (b.textBackOf v) :=
  .bind (b.steady_integer v) fun _ _ ↦ steady_control _

/-! ## Memory -/

theorem steady_writeByte (address n : Int) :
    Steady W F F' (fun _ ↦ True) (writeByte address n) := by
  refine .of_get fun s _ hs ↦ ?_
  rw [Session.withFrames_bus]
  cases h : s.bus.poke address n with
  | error f =>
    obtain rfl := s.bus.noMemory_of_poke address n f h
    exact .error (W.stops_fault (Fault.not_isUnbound trivial)) (.refl hs)
  | ok bus => exact .ok trivial ⟨rfl, rfl, hs.heap, hs.vars, hs.loops, hs.data⟩

theorem steady_readByte (address : Int) : Steady W F F' W.good (readByte address) :=
  .get fun s _ _ ↦ .bind (.ofFault ((s.bus.noMemory_of_peek address).mono fun _ h ↦
    h ▸ Fault.not_isUnbound trivial) fun _ _ ↦ trivial) fun _ _ ↦ .pure (W.number _)

theorem steady_pokeOf (b : Builtin) (address v : Value) :
    Steady W F F' W.good (b.pokeOf address v) :=
  .bind (b.steady_integer address) fun _ _ ↦ .bind (b.steady_integer v) fun _ _ ↦
    .bind (steady_writeByte _ _) fun _ _ ↦ .pure W.null

theorem steady_peekOf (b : Builtin) (address : Value) : Steady W F F' W.good (b.peekOf address) :=
  .bind (b.steady_integer address) fun _ _ ↦ steady_readByte _

theorem steady_plotOf (b : Builtin) (x y v : Value) : Steady W F F' W.good (b.plotOf x y v) :=
  .bind (b.steady_integer x) fun _ _ ↦ .bind (b.steady_integer y) fun _ _ ↦
    .ite (fun _ ↦ .fail trivial) fun _ ↦ .bind (b.steady_integer v) fun _ _ ↦
      .bind (steady_writeByte _ _) fun _ _ ↦ .pure W.null

theorem steady_keysDownOf : Steady W F F' W.good keysDownOf :=
  .bind (steady_writeByte _ _) fun _ _ ↦ .bind (.mapM fun address _ ↦ steady_readByte address)
    fun _ hvs ↦ Action.steady_newArray hvs

/-! ## Debugging -/

theorem steady_printMonadOf (v : Value) : Steady W F F' W.good (printMonadOf v) :=
  .ite (fun _ ↦ .bind (Action.steady_describe v) fun _ _ ↦
      .bind (Action.steady_print _) fun _ _ ↦ .pure W.null)
    fun _ ↦ .bind (Action.steady_typed v) fun _ _ ↦ .fail trivial

theorem steady_resolveOf (site : Site) {v : Value} (hv : W.good v) :
    Steady W F F' W.good (resolveOf site v) := by
  have hend : Steady W F F' W.good (do
      Action.print ((← Action.describe v) ++ "\n")
      return v) :=
    .bind (Action.steady_describe v) fun _ _ ↦ .bind (Action.steady_print _) fun _ _ ↦ .pure hv
  cases v with
  | closure c => exact .bind (Action.steady_print _) fun _ _ ↦ hend
  | _ => exact hend

theorem not_isUnbound_undefined (name : String) :
    ¬ ({ kind := .unresolvedReference, message := "Undefined variable: " ++ name } :
      Fault).IsUnbound := by
  rintro ⟨-, h⟩
  have htake : ("Undefined variable: " ++ name).toList.take 3 = ['U', 'n', 'r'] :=
    congrArg (·.toList.take 3) h
  rw [String.toList_append, List.take_append_of_le_length (by decide)] at htake
  exact absurd htake (by decide)

theorem steady_resolveVarOf (operand : Operand) :
    Steady W F F' (Operand.IsGood W) (resolveVarOf operand) := by
  unfold resolveVarOf
  split
  · rename_i name
    refine .get fun s _ hs ↦ ?_
    rw [Session.withFrames_vars]
    cases h : s.vars.lookup? name with
    | some v =>
      have hv : W.good v := hs.vars.lookup? W.constant h
      exact .bind (Action.steady_describe v) fun _ _ ↦ .bind (Action.steady_print _) fun _ _ ↦
        .pure hv
    | none =>
      exact .throw (W.stops_fault (not_isUnbound_undefined name))
  · exact .bind (Operand.steady_typed _) fun _ _ ↦ .fail trivial

end LineBasic.Builtin
