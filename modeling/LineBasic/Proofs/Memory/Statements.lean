import LineBasic.Builtin.Data
import LineBasic.Builtin.Device
import LineBasic.Builtin.Jump
import LineBasic.Builtin.Loop
import LineBasic.Proofs.Memory.Values

/-!
# Statement builtins within the memory

Builtins that assign do so by way of the one check of the memory.  Those that loop, jump, keep data
and use the devices have to do with the variables in no other way.
-/

set_option autoImplicit false
namespace LineBasic.Builtin

variable {n : Nat}

/-! ## Assignments -/

theorem below_nameFunction (target : Operand) {v : Value} (hv : v.Below n) :
    (nameFunction target v).Below n := by
  unfold nameFunction
  split
  · split
    · exact Closure.below_rename _ hv
    · exact hv
  · exact hv

theorem thrifty_assignOf (b : Builtin) (target : Operand) {operand : Operand}
    (h : operand.Below n) : Thrifty n Operand.Below (b.assignOf target operand) :=
  .bind (Operand.thrifty_resolve h) fun _ _ hv ↦
    .bind (target.frugal_store (below_nameFunction target hv) b.name) fun hm _ _ ↦
      .pure fun _ hk ↦ (below_nameFunction target hv).mono (Nat.le_trans hm hk)

theorem thrifty_memberOf (target : Operand) {operand : Operand} (h : operand.Below n) :
    Thrifty n Operand.Below (memberOf target operand) := by
  unfold memberOf
  split
  · exact .bind (Operand.thrifty_resolve h) fun _ _ hv ↦ .pure fun _ hm ↦ hv.mono hm
  · exact .bind (Operand.frugal_typed _) fun _ _ _ ↦ .fail _

/-! ## Loops -/

theorem thrifty_loopHead (b : Builtin) {operand : Operand} (h : operand.Below n) :
    Thrifty n (fun m p ↦ p.2.Below m) (b.loopHead operand) := by
  cases operand with
  | assignment name v => exact .pure fun _ hm ↦ Value.Below.mono h hm
  | _ => exact .fail _

theorem thrifty_enterLoop (name : String) {first : Value} (hfirst : first.Below n)
    {source : LoopSource} (hsource : source.All (Value.Below n)) (site : Site) :
    Thrifty n Operand.Below (enterLoop name first source site) :=
  .bind (Action.frugal_assign name hfirst) fun hm _ _ ↦
    .modify_bind (fun _ hk hs ↦ hs.spends rfl rfl rfl rfl rfl
      (List.forall_mem_cons.2 ⟨hsource.mono fun _ hv ↦ hv.mono (Nat.le_trans hm hk),
        hs.all.loops⟩) hs.all.data)
      fun _ ↦ Operand.thrifty_pure Value.below_null

theorem thrifty_loopOf (b : Builtin) (site : Site) {operand : Operand} (h : operand.Below n) :
    Thrifty n Operand.Below (b.loopOf site operand) := by
  refine .bind (b.thrifty_loopHead h) fun _ p _ ↦ ?_
  obtain ⟨name, v⟩ := p
  simp only
  split
  · have hsource : ∀ {m} g, LoopSource.All (Value.Below m) (.range g) := fun _ ↦ trivial
    exact thrifty_enterLoop name (Value.below_number _) (hsource _) site
  · exact .bind (Action.frugal_typed _) fun _ _ _ ↦ .fail _

theorem thrifty_loopOverOf (b : Builtin) (site : Site) {operand : Operand} (h : operand.Below n) :
    Thrifty n Operand.Below (b.loopOverOf site operand) := by
  refine .bind (b.thrifty_loopHead h) fun _ p hp ↦
    .bind (b.thrifty_items hp) fun {m} _ items hitems ↦ ?_
  have hrest : LoopSource.All (Value.Below m) (.rest items.tail) := fun v hv ↦
    hitems v (List.mem_of_mem_tail hv)
  exact thrifty_enterLoop _ hitems.headD hrest site

theorem frugal_wrongLoop (named : Operand) (inner : Loop) : Frugal n (wrongLoop named inner) := by
  unfold wrongLoop
  split
  · exact .bind (Q := fun _ _ ↦ True) .any fun _ _ _ ↦ .fail _
  · exact .bind (Operand.frugal_typed _) fun _ _ _ ↦ .fail _

theorem frugal_putLoops {loops : List Loop}
    (h : ∀ loop ∈ loops, loop.source.All (Value.Below n)) :
    Frugal n (modify fun s ↦ { s with loops } : Action Unit) :=
  .modify fun _ hn hs ↦ hs.spends rfl rfl rfl rfl rfl
    (fun loop hloop ↦ (h loop hloop).mono fun _ hv ↦ hv.mono hn) hs.all.data

theorem frugal_checkNamed (inner : Loop) (operands : List Operand) :
    Frugal n (checkNamed inner operands) := by
  cases operands with
  | nil => exact .any
  | cons named rest => exact .ite (fun _ ↦ frugal_wrongLoop named inner) fun _ ↦ .any

theorem thrifty_leaveLoop {outer : List Loop}
    (houter : ∀ loop ∈ outer, loop.source.All (Value.Below n)) :
    Thrifty n Operand.Below (leaveLoop outer) :=
  .bind (frugal_putLoops houter) fun _ _ _ ↦ Operand.thrifty_pure Value.below_null

theorem thrifty_stepLoop (b : Builtin) {inner : Loop} {outer : List Loop}
    (hinner : inner.source.All (Value.Below n))
    (houter : ∀ loop ∈ outer, loop.source.All (Value.Below n)) :
    Thrifty n Operand.Below (b.stepLoop inner outer) := by
  have houter' : ∀ {m}, n ≤ m → ∀ loop ∈ outer, loop.source.All (Value.Below m) :=
    fun hm loop hloop ↦ (houter loop hloop).mono fun _ hv ↦ hv.mono hm
  unfold stepLoop
  split
  · refine .bind (Action.thrifty_lookup inner.name) fun hm current _ ↦ ?_
    refine .bind (b.frugal_number current) fun hm' x _ ↦ ?_
    have hm := Nat.le_trans hm hm'
    refine .bind (frugal_putLoops (List.forall_mem_cons.2 ⟨trivial, houter' hm⟩)) fun hm' _ _ ↦ ?_
    have hm := Nat.le_trans hm hm'
    split
    · exact .bind (Action.frugal_assign inner.name (Value.below_number _)) fun _ _ _ ↦
        Operand.thrifty_pure trivial
    · exact .bind (Action.frugal_assign inner.name (Value.below_number _)) fun hm' _ _ ↦
        thrifty_leaveLoop (houter' (Nat.le_trans hm hm'))
  · rename_i v more hsource
    rw [hsource] at hinner
    have hvalues : v.Below n ∧ ∀ w ∈ more, w.Below n := List.forall_mem_cons.1 hinner
    refine .bind (frugal_putLoops (List.forall_mem_cons.2 ⟨hvalues.2, houter⟩)) fun hm _ _ ↦ ?_
    exact .bind (Action.frugal_assign inner.name (hvalues.1.mono hm)) fun _ _ _ ↦
      Operand.thrifty_pure trivial
  · exact thrifty_leaveLoop houter

theorem thrifty_nextOf (b : Builtin) (operands : List Operand) :
    Thrifty n Operand.Below (b.nextOf operands) := by
  refine .get fun s _ hs ↦ ?_
  have hloops := hs.all.loops
  cases hopen : s.loops with
  | nil => exact .fail _
  | cons inner outer =>
    rw [hopen, List.forall_mem_cons] at hloops
    refine .bind (frugal_checkNamed inner operands) fun hm _ _ ↦ b.thrifty_stepLoop ?_ ?_
    · exact hloops.1.mono fun _ hv ↦ hv.mono hm
    · exact fun loop hloop ↦ (hloops.2 loop hloop).mono fun _ hv ↦ hv.mono hm

/-! ## Jumps -/

theorem frugal_targetLine (b : Builtin) {operand : Operand} (h : operand.Below n) :
    Frugal n (b.targetLine operand) := by
  refine .get fun s hn _ ↦ ?_
  simp only
  split
  · exact .any
  · refine .bind (Operand.thrifty_resolve (h.mono hn)) fun _ v _ ↦ ?_
    split
    · exact .bind (.ofNumber _) fun _ _ _ ↦ .ite (fun _ ↦ .fail _) fun _ ↦ .any
    · exact .bind (Action.frugal_typed _) fun _ _ _ ↦ .fail _

theorem thrifty_gotoOf (b : Builtin) {operand : Operand} (h : operand.Below n) :
    Thrifty n Operand.Below (b.gotoOf operand) :=
  .bind (b.frugal_targetLine h) fun _ _ _ ↦ Operand.thrifty_pure trivial

theorem thrifty_gosubOf (b : Builtin) (site : Site) {operand : Operand} (h : operand.Below n) :
    Thrifty n Operand.Below (b.gosubOf site operand) :=
  .bind (b.frugal_targetLine h) fun _ _ _ ↦
    .modify_bind (fun _ _ hs ↦ hs.spends rfl rfl rfl rfl rfl hs.all.loops hs.all.data)
      fun _ ↦ Operand.thrifty_pure trivial

theorem thrifty_comeBackOf : Thrifty n Operand.Below comeBackOf := by
  refine .get fun s _ _ ↦ ?_
  cases s.returns with
  | nil => exact .fail _
  | cons site outer =>
    exact .modify_bind (fun _ _ hs ↦ hs.spends rfl rfl rfl rfl rfl hs.all.loops hs.all.data)
      fun _ ↦ Operand.thrifty_pure trivial

/-! ## Data, labels and options -/

theorem thrifty_dataOf {values : List Value} (h : AllBelow n values) :
    Thrifty n Value.Below (dataOf values) := by
  have hadd : ∀ {m}, n ≤ m → Frugal m
      (modify fun s ↦ { s with data := s.data ++ values } : Action Unit) := fun hm ↦
    .modify fun _ hk hs ↦ hs.spends rfl rfl rfl rfl rfl hs.all.loops
      (AllBelow.append hs.all.data (h.mono (Nat.le_trans hm hk)))
  exact .get fun s hn _ ↦ .ite
    (fun _ ↦ .bind (hadd hn) fun _ _ _ ↦ .value Value.below_null) fun _ ↦ .value Value.below_null

theorem thrifty_nextDatum : Thrifty n Value.Below nextDatum := by
  refine .of_get fun s _ hs ↦ ?_
  cases h : s.data[s.cursor]? with
  | none => exact .error hs.refl
  | some v =>
    exact .ok (hs.spends rfl rfl rfl rfl rfl hs.all.loops hs.all.data)
      (hs.all.data v (List.mem_of_getElem? h))

theorem thrifty_readOf (b : Builtin) (target : Operand) :
    Thrifty n Operand.Below (b.readOf target) :=
  .bind thrifty_nextDatum fun _ _ hv ↦ .bind (target.frugal_store hv b.name) fun hm _ _ ↦
    .pure fun _ hk ↦ hv.mono (Nat.le_trans hm hk)

theorem thrifty_restoreOf : Thrifty n Value.Below restoreOf :=
  .modify_bind (fun _ _ hs ↦ hs.spends rfl rfl rfl rfl rfl hs.all.loops hs.all.data)
    fun _ ↦ .value Value.below_null

theorem thrifty_labelOf (site : Site) (operand : Operand) :
    Thrifty n Operand.Below (labelOf site operand) := by
  refine .of_get fun s _ hs ↦ ?_
  cases s.isCollecting with
  | false => exact .ok hs.refl Value.below_null
  | true =>
    cases operand with
    | reference name =>
      simp only [if_true]
      cases s.labels.get? name with
      | some line => exact .error hs.refl
      | none =>
        exact .ok (hs.spends rfl rfl rfl rfl rfl hs.all.loops hs.all.data) Value.below_null
    | _ => exact .error hs.refl

theorem thrifty_clearOf : Thrifty n Value.Below clearOf :=
  .modify_bind (fun _ _ hs ↦ hs.spends_forget) fun _ ↦ .value Value.below_null

theorem frugal_flag (b : Builtin) (v : Value) : Frugal n (b.flag v) :=
  .bind (b.frugal_integer v) fun _ _ _ ↦ .ite (fun _ ↦ .any) fun _ ↦ .ite (fun _ ↦ .any)
    fun _ ↦ .fail _

theorem thrifty_optionBaseOf (b : Builtin) (v : Value) :
    Thrifty n Value.Below (b.optionBaseOf v) :=
  .bind (b.frugal_flag v) fun _ _ _ ↦
    .modify_bind (fun _ _ hs ↦ hs.spends rfl rfl rfl rfl rfl hs.all.loops hs.all.data)
      fun _ ↦ .value Value.below_null

theorem thrifty_optionDebugOf (b : Builtin) (v : Value) :
    Thrifty n Value.Below (b.optionDebugOf v) :=
  .bind (b.frugal_flag v) fun _ _ _ ↦
    .modify_bind (fun _ _ hs ↦ hs.spends rfl rfl rfl rfl rfl hs.all.loops hs.all.data)
      fun _ ↦ .value Value.below_null

theorem thrifty_optionTraceOf (b : Builtin) (v : Value) :
    Thrifty n Value.Below (b.optionTraceOf v) :=
  .bind (b.frugal_flag v) fun _ _ _ ↦
    .modify_bind (fun _ _ hs ↦ hs.spends rfl rfl rfl rfl rfl hs.all.loops hs.all.data)
      fun _ ↦ .value Value.below_null

/-! ## Console -/

theorem frugal_printedText (asCode : Bool) (v : Value) : Frugal n (printedText asCode v) := by
  unfold printedText
  split
  · refine .bind (.ofNumber _) fun _ k _ ↦ ?_
    split
    · exact .any
    · exact .throw _
    · exact .throw _
  · exact Action.frugal_describe _

theorem frugal_printRest (asCode : Bool) (separators : List Separator) (vs : List Value) :
    Frugal n (printRest asCode separators vs) := by
  induction vs generalizing separators n with
  | nil => exact .any
  | cons v vs ih =>
    have hrest : ∀ {m}, Frugal m (do
        Action.print (← printedText asCode v)
        printRest asCode separators.tail vs) :=
      .bind (frugal_printedText asCode v) fun _ _ _ ↦
        .bind (Action.frugal_print _) fun _ _ _ ↦ ih _
    rw [printRest]
    exact .ite (fun _ ↦ .bind (Action.frugal_print _) fun _ _ _ ↦ hrest) fun _ ↦ hrest

theorem thrifty_printOf (asCode : Bool) (separators : List Separator) (vs : List Value) :
    Thrifty n Value.Below (printOf asCode separators vs) := by
  have hend : ∀ {m}, Thrifty m Value.Below (do
      if !leavesLineOpen vs then Action.print "\n"
      return .null) :=
    .ite (fun _ ↦ .bind (Action.frugal_print _) fun _ _ _ ↦ .value Value.below_null)
      fun _ ↦ .value Value.below_null
  cases vs with
  | nil => exact hend
  | cons v vs =>
    exact .bind (frugal_printedText asCode v) fun _ _ _ ↦
      .bind (Action.frugal_print _) fun _ _ _ ↦
      .bind (frugal_printRest asCode separators vs) fun _ _ _ ↦ hend

theorem below_inputValue (line : String) : (inputValue line).Below n := by
  unfold inputValue
  simp only
  split
  · exact Value.below_number _
  · exact Value.below_string _

theorem thrifty_inputOf (b : Builtin) (target : Operand) :
    Thrifty n Operand.Below (b.inputOf target) :=
  .bind (Action.frugal_print _) fun _ _ _ ↦ .bind Action.frugal_readLine fun _ line _ ↦
    .bind (target.frugal_store (below_inputValue line) b.name) fun _ _ _ ↦
      Operand.thrifty_pure (below_inputValue line)

theorem thrifty_readTextOf : Thrifty n Value.Below readTextOf :=
  .bind Action.frugal_readLine fun _ _ _ ↦ .value (Value.below_string _)

theorem thrifty_clearScreenOf : Thrifty n Value.Below clearScreenOf :=
  .modify_bind (fun _ _ hs ↦ hs.spends rfl rfl rfl rfl rfl hs.all.loops hs.all.data)
    fun _ ↦ .value Value.below_null

theorem thrifty_control (text : String) : Thrifty n Value.Below (control text) :=
  .bind (Action.frugal_print _) fun _ _ _ ↦ .value Value.below_null

theorem thrifty_moveCursorOf (b : Builtin) (row column : Value) :
    Thrifty n Value.Below (b.moveCursorOf row column) :=
  .get fun _ _ _ ↦ .bind (.anyStop _) fun _ _ _ ↦
    .bind (b.frugal_integer row) fun _ _ _ ↦
    .bind (.anyStop _) fun _ _ _ ↦
    .bind (b.frugal_integer column) fun _ _ _ ↦
    .bind (.anyStop _) fun _ _ _ ↦ thrifty_control _

theorem thrifty_textForeOf (b : Builtin) (v : Value) : Thrifty n Value.Below (b.textForeOf v) :=
  .bind (b.frugal_integer v) fun _ _ _ ↦ thrifty_control _

theorem thrifty_textBackOf (b : Builtin) (v : Value) : Thrifty n Value.Below (b.textBackOf v) :=
  .bind (b.frugal_integer v) fun _ _ _ ↦ thrifty_control _

/-! ## Memory-mapped devices -/

theorem frugal_writeByte (address k : Int) : Frugal n (writeByte address k) := by
  refine .of_get fun s _ hs ↦ ?_
  cases h : s.bus.poke address k with
  | error f => exact .error hs.refl
  | ok bus => exact .ok (hs.spends rfl rfl rfl rfl rfl hs.all.loops hs.all.data) trivial

theorem thrifty_readByte (address : Int) : Thrifty n Value.Below (readByte address) :=
  .get fun _ _ _ ↦ .bind (.anyFault _) fun _ _ _ ↦
    .value (Value.below_number _)

theorem thrifty_pokeOf (b : Builtin) (address v : Value) :
    Thrifty n Value.Below (b.pokeOf address v) :=
  .bind (b.frugal_integer address) fun _ _ _ ↦ .bind (b.frugal_integer v) fun _ _ _ ↦
    .bind (frugal_writeByte _ _) fun _ _ _ ↦ .value Value.below_null

theorem thrifty_peekOf (b : Builtin) (address : Value) :
    Thrifty n Value.Below (b.peekOf address) :=
  .bind (b.frugal_integer address) fun _ _ _ ↦ thrifty_readByte _

theorem thrifty_plotOf (b : Builtin) (x y v : Value) : Thrifty n Value.Below (b.plotOf x y v) :=
  .bind (b.frugal_integer x) fun _ _ _ ↦ .bind (b.frugal_integer y) fun _ _ _ ↦
    .ite (fun _ ↦ .fail _) fun _ ↦ .bind (b.frugal_integer v) fun _ _ _ ↦
      .bind (frugal_writeByte _ _) fun _ _ _ ↦ .value Value.below_null

theorem thrifty_keysDownOf : Thrifty n Value.Below keysDownOf :=
  .bind (frugal_writeByte _ _) fun _ _ _ ↦
    .bind (.mapM fun address _ ↦ thrifty_readByte address) fun _ _ hvs ↦
      Action.thrifty_newArray hvs

/-! ## Debugging -/

theorem thrifty_printMonadOf (v : Value) : Thrifty n Value.Below (printMonadOf v) :=
  .ite (fun _ ↦ .bind (Action.frugal_describe v) fun _ _ _ ↦
      .bind (Action.frugal_print _) fun _ _ _ ↦ .value Value.below_null)
    fun _ ↦ .bind (Action.frugal_typed v) fun _ _ _ ↦ .fail _

theorem thrifty_resolveOf (site : Site) {v : Value} (hv : v.Below n) :
    Thrifty n Value.Below (resolveOf site v) := by
  have hend : ∀ {m}, n ≤ m → Thrifty m Value.Below (do
      Action.print ((← Action.describe v) ++ "\n")
      return v) := fun hm ↦
    .bind (Action.frugal_describe v) fun hm' _ _ ↦ .bind (Action.frugal_print _) fun hk _ _ ↦
      .value (hv.mono (Nat.le_trans hm (Nat.le_trans hm' hk)))
  cases v with
  | closure c => exact .bind (Action.frugal_print _) fun hm _ _ ↦ hend hm
  | _ => exact hend (Nat.le_refl n)

theorem thrifty_resolveVarOf (operand : Operand) :
    Thrifty n Operand.Below (resolveVarOf operand) := by
  unfold resolveVarOf
  split
  · rename_i name
    refine .get fun s _ hs ↦ ?_
    cases h : s.vars.lookup? name with
    | some v =>
      have hv : v.Below s.heap.size := hs.all.vars.lookup? (below_of_constant? hs.nil) h
      exact .bind (Action.frugal_describe v) fun hm _ _ ↦
        .bind (Action.frugal_print _) fun hk _ _ ↦
          Operand.thrifty_pure (hv.mono (Nat.le_trans hm hk))
    | none => exact .throw _
  · exact .bind (Operand.frugal_typed _) fun _ _ _ ↦ .fail _

end LineBasic.Builtin
