import LineBasic.Proofs.Detached.Values
import LineBasic.Run

/-!
# Detached statements

The builtins that use the devices, look for a line or set options are detached, and so are the parts
of others that come before a variable is assigned, a loop stepped on or data read.
-/

set_option autoImplicit false
namespace LineBasic

namespace Builtin

/-! ## Loops -/

theorem detached_loopHead (b : Builtin) (operand : Operand) : Detached (b.loopHead operand) := by
  cases operand with
  | assignment name v => exact .pure _
  | _ => exact .fail _

theorem detached_wrongLoop (named : Operand) (inner : Loop) : Detached (wrongLoop named inner) := by
  unfold wrongLoop
  split
  · exact .bind (.pure _) fun _ ↦ .fail _
  · exact .bind (Operand.detached_typed _) fun _ ↦ .fail _

theorem detached_checkNamed (inner : Loop) (operands : List Operand) :
    Detached (checkNamed inner operands) := by
  cases operands with
  | nil => exact .pure ()
  | cons named rest => exact .ite (detached_wrongLoop named inner) (.pure ())

/-! ## Jumps -/

theorem detached_targetLine (b : Builtin) (operand : Operand) :
    Detached (b.targetLine operand) := by
  refine .get (fun _ ↦ rfl) fun s ↦ ?_
  simp only
  split
  · exact .pure _
  · refine .bind operand.detached_resolve fun v ↦ ?_
    split
    · exact .bind (.ofNumber _) fun _ ↦ .ite (.fail _) (.pure _)
    · exact .bind (Action.detached_typed _) fun _ ↦ .fail _

theorem comeBackOf_of_nil {s : Session} (h : s.returns = []) :
    comeBackOf s =
      .error (.fault { kind := .noGosubToReturn, message := "RETURN without GOSUB" }) s := by
  cases s
  cases h
  rfl

theorem comeBackOf_of_cons {s : Session} {back : Site} {outer : List Site}
    (h : s.returns = back :: outer) :
    comeBackOf s = .ok (.jump back) { s with returns := outer } := by
  cases s
  cases h
  rfl

/-! ## Options -/

theorem detached_flag (b : Builtin) (v : Value) : Detached (b.flag v) :=
  .bind (b.detached_integer v) fun _ ↦ .ite (.pure _) (.ite (.pure _) (.fail _))

theorem detached_optionBaseOf (b : Builtin) (v : Value) : Detached (b.optionBaseOf v) :=
  .bind (b.detached_flag v) fun _ ↦
    .bind (.modify (fun _ _ ↦ rfl) (fun _ _ ↦ rfl) (fun _ ↦ rfl) fun _ ↦ rfl) fun _ ↦ .pure _

theorem detached_optionDebugOf (b : Builtin) (v : Value) : Detached (b.optionDebugOf v) :=
  .bind (b.detached_flag v) fun _ ↦
    .bind (.modify (fun _ _ ↦ rfl) (fun _ _ ↦ rfl) (fun _ ↦ rfl) fun _ ↦ rfl) fun _ ↦ .pure _

theorem detached_optionTraceOf (b : Builtin) (v : Value) : Detached (b.optionTraceOf v) :=
  .bind (b.detached_flag v) fun _ ↦
    .bind (.modify (fun _ _ ↦ rfl) (fun _ _ ↦ rfl) (fun _ ↦ rfl) fun _ ↦ rfl) fun _ ↦ .pure _

/-! ## Console -/

theorem detached_printedText (asCode : Bool) (v : Value) : Detached (printedText asCode v) := by
  unfold printedText
  split
  · refine .bind (.ofNumber _) fun n ↦ ?_
    split
    · exact .pure _
    · exact .throw _
    · exact .throw _
  · exact Action.detached_describe _

theorem detached_printRest (asCode : Bool) (separators : List Separator) (vs : List Value) :
    Detached (printRest asCode separators vs) := by
  induction vs generalizing separators with
  | nil => exact .pure _
  | cons v vs ih =>
    have hrest : Detached (do
        Action.print (← printedText asCode v)
        printRest asCode separators.tail vs) :=
      .bind (detached_printedText asCode v) fun _ ↦ .bind (Action.detached_print _) fun _ ↦ ih _
    rw [printRest]
    exact .ite (.bind (Action.detached_print _) fun _ ↦ hrest) hrest

theorem detached_printOf (asCode : Bool) (separators : List Separator) (vs : List Value) :
    Detached (printOf asCode separators vs) := by
  have hend : Detached (do
      if !leavesLineOpen vs then Action.print "\n"
      return .null : Action Value) :=
    .ite (.bind (Action.detached_print _) fun _ ↦ .pure _) (.pure _)
  cases vs with
  | nil => exact hend
  | cons v vs =>
    exact .bind (detached_printedText asCode v) fun _ ↦ .bind (Action.detached_print _) fun _ ↦
      .bind (detached_printRest asCode separators vs) fun _ ↦ hend

theorem detached_readTextOf : Detached readTextOf :=
  .bind Action.detached_readLine fun _ ↦ .pure _

theorem detached_clearScreenOf : Detached clearScreenOf :=
  .bind (Action.detached_print _) fun _ ↦ .pure _

theorem detached_control (text : String) : Detached (control text) :=
  .bind (Action.detached_print _) fun _ ↦ .pure _

theorem detached_moveCursorOf (b : Builtin) (row column : Value) :
    Detached (b.moveCursorOf row column) :=
  .get (fun _ ↦ rfl) fun _ ↦ .bind (.ofStop _) fun _ ↦ .bind (b.detached_integer row) fun _ ↦
    .bind (.ofStop _) fun _ ↦ .bind (b.detached_integer column) fun _ ↦
      .bind (.ofStop _) fun _ ↦ detached_control _

theorem detached_textForeOf (b : Builtin) (v : Value) : Detached (b.textForeOf v) :=
  .bind (b.detached_integer v) fun _ ↦ detached_control _

theorem detached_textBackOf (b : Builtin) (v : Value) : Detached (b.textBackOf v) :=
  .bind (b.detached_integer v) fun _ ↦ detached_control _

/-! ## Memory -/

theorem writeByte_eq (address n : Int) (s : Session) :
    writeByte address n s = match s.bus.poke address n with
      | .ok bus => .ok () { s with bus }
      | .error f => .error (.fault f) s := by
  change (Action.ofFault (s.bus.poke address n) >>= _) s = _
  cases s.bus.poke address n with
  | ok bus => rfl
  | error f => rfl

theorem detached_writeByte (address n : Int) : Detached (writeByte address n) where
  run k s := by
    rw [writeByte_eq, writeByte_eq]
    change (match s.bus.poke address n with | .ok bus => _ | .error f => _) = _
    cases s.bus.poke address n with
    | ok bus => rfl
    | error f => rfl
  after p s := by
    rw [writeByte_eq, writeByte_eq]
    change (match s.bus.poke address n with | .ok bus => _ | .error f => _) = _
    cases s.bus.poke address n with
    | ok bus => rfl
    | error f => rfl
  grows s := by
    rw [writeByte_eq]
    cases s.bus.poke address n with
    | ok bus => exact .ok trivial (.refl _)
    | error f => exact .error trivial (.refl _)
  names names := by
    refine ⟨fun s hs ↦ ?_⟩
    rw [writeByte_eq]
    cases s.bus.poke address n with
    | ok bus => exact .ok trivial hs
    | error f => exact .error trivial hs

theorem detached_readByte (address : Int) : Detached (readByte address) :=
  .get (fun _ ↦ rfl) fun _ ↦ .bind (.ofFault _) fun _ ↦ .pure _

theorem detached_pokeOf (b : Builtin) (address v : Value) : Detached (b.pokeOf address v) :=
  .bind (b.detached_integer address) fun _ ↦ .bind (b.detached_integer v) fun _ ↦
    .bind (detached_writeByte _ _) fun _ ↦ .pure _

theorem detached_peekOf (b : Builtin) (address : Value) : Detached (b.peekOf address) :=
  .bind (b.detached_integer address) fun _ ↦ detached_readByte _

theorem detached_plotOf (b : Builtin) (x y v : Value) : Detached (b.plotOf x y v) :=
  .bind (b.detached_integer x) fun _ ↦ .bind (b.detached_integer y) fun _ ↦
    .ite (.fail _) (.bind (b.detached_integer v) fun _ ↦
      .bind (detached_writeByte _ _) fun _ ↦ .pure _)

theorem detached_keysDownOf : Detached keysDownOf :=
  .bind (detached_writeByte _ _) fun _ ↦ .bind (.mapM detached_readByte _) fun _ ↦
    Action.detached_newArray _

/-! ## Debugging -/

theorem detached_printMonadOf (v : Value) : Detached (printMonadOf v) :=
  .ite (.bind (Action.detached_describe v) fun _ ↦ .bind (Action.detached_print _) fun _ ↦ .pure _)
    (.bind (Action.detached_typed v) fun _ ↦ .fail _)

theorem detached_resolveOf (site : Site) (v : Value) : Detached (resolveOf site v) := by
  have hend : Detached (do
      Action.print ((← Action.describe v) ++ "\n")
      return v) :=
    .bind (Action.detached_describe v) fun _ ↦ .bind (Action.detached_print _) fun _ ↦ .pure _
  cases v with
  | closure c => exact .bind (Action.detached_print _) fun _ ↦ hend
  | _ => exact hend

/-! ## Data -/

theorem nextDatum_eq (s : Session) :
    nextDatum s = match s.data[s.cursor]? with
      | some v => .ok v { s with cursor := s.cursor + 1 }
      | none => .error (.fault
        { kind := .outOfData, message := "Out of DATA"
          context := some (toString s.data.length ++ " DATA values were read") }) s := by
  unfold nextDatum
  rw [get_bind_run]
  cases s.data[s.cursor]? with
  | some v => rfl
  | none => rfl

theorem commutes_nextDatum {f : Session → Session} (hdata : ∀ s, (f s).data = s.data)
    (hcursor : ∀ s, (f s).cursor = s.cursor)
    (hnext : Commutes f (modify fun s ↦ { s with cursor := s.cursor + 1 } : Action Unit)) :
    Commutes f nextDatum := by
  intro s
  have hread : (f s).data[(f s).cursor]? = s.data[s.cursor]? := by rw [hdata, hcursor]
  rw [nextDatum_eq, nextDatum_eq s, hread]
  cases s.data[s.cursor]? with
  | some v => exact congrArg _ (EStateM.Result.ok.inj (hnext s)).2
  | none =>
    rw [hdata]
    rfl

/-! ## Labels -/

/-- A label gives no value of its own. -/
theorem labelOf_eq (site : Site) (operand : Operand) : labelOf site operand =
    labelOf site operand >>= fun _ ↦ pure (.value .null) := by
  unfold labelOf
  rw [bind_assoc]
  congr 1
  funext s
  split
  · cases operand with
    | reference name =>
      simp only
      cases s.labels.get? name with
      | some line => rfl
      | none => rfl
    | _ => rfl
  · rfl

theorem commutes_labelOf {f : Session → Session}
    (hcollecting : ∀ s, (f s).isCollecting = s.isCollecting)
    (hlabels : ∀ s, (f s).labels = s.labels)
    (hput : ∀ s labels, { f s with labels } = f { s with labels }) (site : Site)
    (operand : Operand) : Commutes f (labelOf site operand) := by
  intro s
  unfold labelOf
  rw [get_bind_run, get_bind_run]
  by_cases h : s.isCollecting = true
  · rw [if_pos h, if_pos ((hcollecting s).trans h)]
    cases operand with
    | reference name =>
      simp only [hlabels]
      cases s.labels.get? name with
      | some line => rfl
      | none =>
        exact congrArg (EStateM.Result.ok (Operand.value .null))
          (hput s (s.labels.insert name site.line))
    | _ => rfl
  · rw [if_neg h, if_neg (hcollecting s ▸ h)]
    rfl

end Builtin

/-! ## Parts of runs -/

theorem Operand.detached_outcome (x : Operand) (site : Site) : Detached (x.outcome site) := by
  cases x with
  | jump target => exact .pure _
  | _ => exact .bind (detached_resolve _) fun _ ↦ .pure _

theorem detached_parse (line : Option Int) (text : String) : Detached (Action.parse line text) := by
  refine .bind (.ofStop _) fun statements ↦ .get (fun _ ↦ rfl) fun s ↦ .ite ?_ (.pure _)
  refine .bind (.forIn (fun statement _ ↦ ?_) statements _) fun _ ↦ .pure _
  cases statement with
  | none => exact .pure _
  | some t => exact .get (fun _ ↦ rfl) fun _ ↦ .bind (.ofStop _) fun _ ↦ .pure _

theorem detached_checkInterval : Detached Action.checkInterval := by
  refine .get (fun _ ↦ rfl) fun s ↦ ?_
  cases s.settings.interval with
  | other => exact .throw _
  | _ => exact .pure _

end LineBasic
