import LineBasic.Proofs.Assignments
import LineBasic.Proofs.Run.LoopStatements

/-!
# Reading what was assigned

A name that is not that of a builtin means the value that was assigned to it last: where the name is
read, and where it is called.  It goes on meaning it until something is assigned to the name again,
or the variables are cleared.  The name of a builtin can be assigned too, but goes on meaning the
builtin.

* `Session.Uses` — a name that means a value.
* `Session.lookup_eq_ok_iff` — what a name means that is not that of a builtin.
* `uses_assigned` — the result.
-/

set_option autoImplicit false
namespace LineBasic

/-- A name that means a value: reading it gives the value, and calling it applies the value to the
arguments, unless evaluating these does something to the name. -/
structure Session.Uses (s : Session) (name : String) (v : Value) : Prop where
  read : ∀ enter site other, Text.upper other = Text.upper name →
    (do (← eval enter site (.ident other)).resolve : Action Value) s = .ok v s
  call : ∀ enter site other, Text.upper other = Text.upper name → ∀ args separators es vs s₁,
    Assigns (evalValues enter site args) s es → (∀ e ∈ es, ¬ e.Touches name) →
    evalValues enter site args s = .ok vs s₁ →
    eval enter site (.call other args separators) s = applyValue enter v vs other s₁

namespace Session

variable {s s' : Session} {name other : String} {v : Value}

/-! ## What names mean -/

theorem lookup?_congr (vars : Variables) (h : Text.upper other = Text.upper name) :
    vars.lookup? other = vars.lookup? name := by
  simp only [Variables.lookup?, h]

theorem isConstant_upper (name : String) :
    Variables.isConstant (Text.upper name) = Variables.isConstant name := by
  simp only [Variables.isConstant, Text.upper_upper]

theorem lookup?_upper (vars : Variables) (name : String) :
    vars.lookup? (Text.upper name) = vars.lookup? name :=
  lookup?_congr vars (Text.upper_upper name)

/-- A name that is not that of a builtin means what is kept under it. -/
theorem lookup_eq_ok_iff (hname : Builtin.ofName? name = none) :
    s.lookup name = .ok v ↔ s.vars.lookup? name = some v := by
  rw [Builtin.ofName?] at hname
  simp only [lookup, isConstant_upper, lookup?_upper, Builtin.ofName?, Text.upper_upper, hname]
  split
  · rename_i hconstant
    rw [Variables.isConstant] at hconstant
    obtain ⟨w, hw⟩ := Option.isSome_iff_exists.1 hconstant
    simp [Variables.lookup?, hw]
  · cases s.vars.lookup? name with
    | none => simp
    | some w => simp

theorem lookup_of_ofName? {b : Builtin} (hname : Builtin.ofName? name = some b) :
    s.lookup name = s.builtinValue b := by
  have hnone : ∀ c ∈ constants, Builtin.ofKey? c.1 = none := by decide +kernel
  have hconstant : Variables.isConstant name = false := by
    rw [Variables.isConstant, constant?, Option.isSome_map, Option.isSome_eq_false_iff,
      Option.isNone_iff_eq_none, List.find?_eq_none]
    intro c hc heq
    rw [Builtin.ofName?, ← eq_of_beq heq, hnone c hc] at hname
    cases hname
  rw [Builtin.ofName?] at hname
  simp only [lookup, isConstant_upper, Builtin.ofName?, Text.upper_upper, hname, hconstant]
  rfl

theorem resolve_ident {enter : Closure → List Value → Action Value} {site : Site} :
    (do (← eval enter site (.ident name)).resolve : Action Value) = Action.lookup name := by
  rw [eval, pure_bind, Operand.resolve]

theorem uses_iff (hname : Builtin.ofName? name = none) :
    s.Uses name v ↔ s.vars.lookup? name = some v := by
  have hother {other : String} (h : Text.upper other = Text.upper name) :
      Builtin.ofName? other = none := by
    rw [Builtin.ofName?, h]
    exact hname
  have hread {s : Session} {other : String} (hsame : Text.upper other = Text.upper name)
      (h : s.vars.lookup? name = some v) : Action.lookup other s = .ok v s :=
    Action.lookup_eq_ok.2
      ⟨(lookup_eq_ok_iff (hother hsame)).2 ((lookup?_congr _ hsame).trans h), rfl⟩
  constructor
  · intro h
    have hlookup := h.read (fun _ _ ↦ throw .endOfInput) ⟨typedLine, 0⟩ name rfl
    rw [resolve_ident] at hlookup
    exact (lookup_eq_ok_iff hname).1 (Action.lookup_eq_ok.1 hlookup).1
  · intro h
    refine ⟨fun _ _ _ hsame ↦ resolve_ident ▸ hread hsame h, ?_⟩
    intro enter site other hsame args separators es vs s₁ hes hspared hargs
    have hkept := (hargs ▸ hes.ends_lookup? hspared).of_ok.2
    rw [eval, hother hsame]
    simp only
    rw [bind_run_of_ok hargs]
    exact bind_run_of_ok (hread hsame (hkept.trans h))

/-! ## Assignments -/

/-- What is assigned to a name that is not that of a builtin, the name means. -/
theorem uses_of_assign (hname : Builtin.ofName? name = none) (h : s.assign name v = .ok s') :
    s'.Uses name v := by
  have hconstant : Variables.isConstant name = false := by
    obtain ⟨vars, hvars, -⟩ := eq_of_assign h
    rw [Variables.define] at hvars
    split at hvars
    · cases hvars
    · exact Bool.eq_false_iff.2 ‹_›
  exact (uses_iff hname).2 (lookup?_of_assign ⟨hconstant, hname⟩ h)

end Session

section
variable {enter : Closure → List Value → Action Value} {site : Site} {s s' : Session}
  {name : String} {x : Operand}

theorem Action.assign_eq_ok {v : Value} :
    Action.assign name v s = .ok () s' ↔ s.assign name v = .ok s' := by
  rw [Action.assign, get_bind_run]
  cases s.assign name v with
  | ok t => exact ⟨fun h ↦ by cases h; rfl, fun h ↦ by cases h; rfl⟩
  | error stop => exact ⟨fun h ↦ (by cases h), fun h ↦ (by cases h)⟩

theorem Operand.store_reference_eq_ok {v : Value} {statement written : String} :
    (reference name).store v statement s = .ok written s' ↔
      s.assign name v = .ok s' ∧ written = name := by
  rw [store, bind_run_eq_ok]
  constructor
  · rintro ⟨_, _, h, hend⟩
    cases hend
    exact ⟨Action.assign_eq_ok.1 h, rfl⟩
  · rintro ⟨h, rfl⟩
    exact ⟨(), s', Action.assign_eq_ok.2 h, rfl⟩

/-- What a builtin does that stores a value in its target. -/
theorem stored_eq_ok {v : Value} {statement : String} :
    (do return .assignment (← (Operand.reference name).store v statement) v : Action Operand) s =
      .ok x s' ↔ s.assign name v = .ok s' ∧ x = .assignment name v := by
  rw [bind_run_eq_ok]
  constructor
  · rintro ⟨_, _, h, hend⟩
    cases hend
    obtain ⟨h, rfl⟩ := Operand.store_reference_eq_ok.1 h
    exact ⟨h, rfl⟩
  · rintro ⟨h, rfl⟩
    exact ⟨name, s', Operand.store_reference_eq_ok.2 ⟨h, rfl⟩, rfl⟩

/-- An assignment evaluates its right side and assigns the value. -/
theorem eval_assign_eq_ok {e : Tree} :
    eval enter site (.binary .assign (.ident name) e) s = .ok x s' ↔ ∃ v s₁,
      (do (← eval enter site e).resolve : Action Value) s = .ok v s₁ ∧
      s₁.assign name (Builtin.nameFunction (.reference name) v) = .ok s' ∧
      x = .assignment name (Builtin.nameFunction (.reference name) v) := by
  have hinvoke (y : Operand) : Builtin.assign.invoke enter site [] [.reference name, y] =
      Builtin.assign.assignOf (.reference name) y := rfl
  rw [eval_binary_eq_ok (b := .assign) rfl (checkEnabled_eq_ok rfl rfl)]
  constructor
  · rintro ⟨_, _, y, s₁, htarget, hy, h⟩
    rw [eval] at htarget
    cases htarget
    rw [hinvoke, Builtin.assignOf] at h
    obtain ⟨v, s₂, hv, h⟩ := bind_run_eq_ok.1 h
    obtain ⟨hassign, rfl⟩ := stored_eq_ok.1 h
    exact ⟨v, s₂, bind_run_eq_ok.2 ⟨y, s₁, hy, hv⟩, hassign, rfl⟩
  · rintro ⟨v, s₂, h, hassign, rfl⟩
    obtain ⟨y, s₁, hy, hv⟩ := bind_run_eq_ok.1 h
    refine ⟨.reference name, s, y, s₁, by rw [eval]; rfl, hy, ?_⟩
    rw [hinvoke, Builtin.assignOf]
    exact bind_run_eq_ok.2 ⟨v, s₂, hv, stored_eq_ok.2 ⟨hassign, rfl⟩⟩

/-- A statement with a name as its only argument is called with the name. -/
theorem eval_call_ident {b : Builtin} {keyword : String} {separators : List Separator}
    (hkeyword : Builtin.ofName? keyword = some b) (henabled : s.checkEnabled b = .ok ()) :
    eval enter site (.call keyword [.ident name] separators) s =
      b.invoke enter site separators [.reference name] s := by
  rw [eval, hkeyword]
  simp only
  rw [callBuiltin_eq henabled, evalAll, evalAll, eval]
  rfl

theorem eval_read_eq_ok {keyword : String} {separators : List Separator}
    (hkeyword : Builtin.ofName? keyword = some .read) :
    eval enter site (.call keyword [.ident name] separators) s = .ok x s' ↔ ∃ v,
      s.data[s.cursor]? = some v ∧ { s with cursor := s.cursor + 1 }.assign name v = .ok s' ∧
      x = .assignment name v := by
  rw [eval_call_ident hkeyword (checkEnabled_eq_ok rfl rfl)]
  change Builtin.read.readOf (.reference name) s = _ ↔ _
  rw [Builtin.readOf, bind_run_eq_ok, Builtin.nextDatum_eq]
  cases hv : s.data[s.cursor]? with
  | some v =>
    constructor
    · rintro ⟨_, _, hend, h⟩
      cases hend
      exact ⟨v, rfl, stored_eq_ok.1 h⟩
    · rintro ⟨_, hw, h⟩
      cases hw
      exact ⟨v, _, rfl, stored_eq_ok.2 h⟩
  | none =>
    constructor
    · rintro ⟨_, _, hend, -⟩
      cases hend
    · rintro ⟨_, hw, -⟩
      cases hw

theorem Action.readLine_eq_ok {line : String} :
    Action.readLine s = .ok line s' ↔ ∃ rest, s.console.input = line :: rest ∧
      s' = { s with console := { s.console with input := rest } } := by
  rw [Action.readLine_eq]
  cases s.console.input with
  | nil => simp
  | cons first rest =>
    constructor
    · intro h
      cases h
      exact ⟨rest, rfl, rfl⟩
    · rintro ⟨_, hlines, rfl⟩
      cases hlines
      rfl

theorem eval_input_eq_ok {keyword : String} {separators : List Separator}
    (hkeyword : Builtin.ofName? keyword = some .input) :
    eval enter site (.call keyword [.ident name] separators) s = .ok x s' ↔ ∃ line rest,
      s.console.input = line :: rest ∧
      { s with console := { s.console.print "? " with input := rest } }.assign name
        (Builtin.inputValue line) = .ok s' ∧
      x = .assignment name (Builtin.inputValue line) := by
  rw [eval_call_ident hkeyword (checkEnabled_eq_ok rfl rfl)]
  change Builtin.input.inputOf (.reference name) s = _ ↔ _
  have hprint : Action.print "? " s = .ok () { s with console := s.console.print "? " } := rfl
  rw [Builtin.inputOf, bind_run_of_ok hprint, bind_run_eq_ok]
  constructor
  · rintro ⟨line, s₁, hread, h⟩
    obtain ⟨rest, hinput, rfl⟩ := Action.readLine_eq_ok.1 hread
    exact ⟨line, rest, hinput, stored_eq_ok.1 h⟩
  · rintro ⟨line, rest, hinput, h⟩
    exact ⟨line, _, Action.readLine_eq_ok.2 ⟨rest, hinput, rfl⟩, stored_eq_ok.2 h⟩

end

/-! ## Statements that name what they assign -/

section
variable {isBuiltin : String → Bool} {source : Source} {head : Item} {n : Token} {rest : List Item}
  {t : Tree}

/-- The definition of a function is an assignment to the name that it is of. -/
theorem assigns_of_parseDefine
    (h : parseDefine isBuiltin source (head :: .token n :: rest) = .ok t) :
    ∃ e, t.resolve = .binary .assign (.ident (Text.upper n.text)) e := by
  rw [parseDefine.eq_def] at h
  simp only at h
  split at h
  · cases h
  split at h
  · rename_i heq
    cases heq
    split at h
    · cases h
    split at h
    · cases h
    split at h
    · cases h
    split at h
    · cases h
    obtain ⟨names, -, h⟩ := bind_eq_ok.1 h
    obtain ⟨body, -, h⟩ := bind_eq_ok.1 h
    cases h
    exact ⟨_, rfl⟩
  · cases h

/-- The declaration of an array is an assignment to the name of the array. -/
theorem assigns_of_parseDim (h : parseDim isBuiltin source (head :: .token n :: rest) = .ok t) :
    ∃ e, t.resolve = .binary .assign (.ident (Text.upper n.text)) e := by
  rw [parseDim.eq_def] at h
  split at h
  · rename_i heq
    cases heq
    split at h
    · obtain ⟨⟨args, separators⟩, -, h⟩ := bind_eq_ok.1 h
      simp only at h
      split at h
      · cases h
      · cases h
        exact ⟨_, rfl⟩
    · cases h
  · cases h

end

/-! ## The result -/

theorem Builtin.nameFunction_reference (name : String) (v : Value) :
    nameFunction (.reference name) v = v ∨
      ∃ c, v = .closure c ∧ nameFunction (.reference name) v = .closure (c.rename name) := by
  cases v with
  | closure c =>
    by_cases hname : c.name.isEmpty
    · exact .inr ⟨c, rfl, by rw [nameFunction, if_pos hname]⟩
    · exact .inl (by rw [nameFunction, if_neg hname])
  | _ => exact .inl rfl

/-- What is assigned to a name that is not that of a builtin is what the name means, where it is read
and where it is called.  An assignment assigns the value of its right side, which is named if it is
a function without a name; definitions of functions and declarations of arrays are assignments; and
`READ` and `INPUT` assign the next value of the data and the next line of input.  The name goes on
meaning the value until something is assigned to it again or the variables are cleared, whatever
else statements, runs and dialogues do.  The name of a builtin always means the builtin. -/
theorem uses_assigned :
    (∀ isBuiltin source head n rest t,
      parseDefine isBuiltin source (head :: .token n :: rest) = .ok t ∨
        parseDim isBuiltin source (head :: .token n :: rest) = .ok t →
      ∃ e, t.resolve = .binary .assign (.ident (Text.upper n.text)) e) ∧
    (∀ name, Builtin.ofName? name = none →
      (∀ enter site s x s',
        (∀ e, eval enter site (.binary .assign (.ident name) e) s = .ok x s' →
          ∃ v s₁, (do (← eval enter site e).resolve : Action Value) s = .ok v s₁ ∧
            s'.Uses name (Builtin.nameFunction (.reference name) v)) ∧
        ∀ keyword separators, eval enter site (.call keyword [.ident name] separators) s = .ok x s' →
          (Builtin.ofName? keyword = some .read →
            ∃ v, s.data[s.cursor]? = some v ∧ s'.Uses name v) ∧
          (Builtin.ofName? keyword = some .input →
            ∃ line rest, s.console.input = line :: rest ∧
              s'.Uses name (Builtin.inputValue line))) ∧
      (∀ v, Builtin.nameFunction (.reference name) v = v ∨
        ∃ c, v = .closure c ∧
          Builtin.nameFunction (.reference name) v = .closure (c.rename name)) ∧
      ∀ s v, s.Uses name v →
        (∀ {α : Type} (act : Action α) es, Assigns act s es → (∀ e ∈ es, ¬ e.Touches name) →
          Ends (fun s' ↦ s'.Uses name v) (fun _ ↦ True) (fun _ ↦ True) (act s)) ∧
        ∀ es s', s.Passes es s' → (∀ e ∈ es, ¬ e.Touches name) → s'.Uses name v) ∧
    (∀ site room ts s, ∃ es, Assigns (evalValues (callWithin site room) site ts) s es) ∧
    (∀ site t s, ∃ es, Assigns (execute site t) s es) ∧
    (∀ (turn : Dialogue.Turn) (d : Dialogue),
      Ends (fun d' ↦ ∃ es, d.session.Passes es d'.session) (fun _ ↦ True) (fun _ ↦ True)
        (turn.exchange d)) ∧
    ∀ name b, Builtin.ofName? name = some b → ∀ s : Session, s.lookup name = s.builtinValue b := by
  refine ⟨fun isBuiltin source head n rest t h ↦ ?_, fun name hname ↦ ⟨fun enter site s x s' ↦ ?_,
    Builtin.nameFunction_reference name, fun s v h ↦ ⟨?_, ?_⟩⟩, assigns_evalValues, assigns_execute,
    fun turn d ↦ turn.passes_exchange d, fun name b hname s ↦ Session.lookup_of_ofName? hname⟩
  · exact h.elim assigns_of_parseDefine assigns_of_parseDim
  · refine ⟨fun e h ↦ ?_, fun keyword separators h ↦ ⟨fun hread ↦ ?_, fun hinput ↦ ?_⟩⟩
    · obtain ⟨v, s₁, hv, hassign, -⟩ := eval_assign_eq_ok.1 h
      exact ⟨v, s₁, hv, Session.uses_of_assign hname hassign⟩
    · obtain ⟨v, hv, hassign, -⟩ := (eval_read_eq_ok hread).1 h
      exact ⟨v, hv, Session.uses_of_assign hname hassign⟩
    · obtain ⟨line, rest, hlines, hassign, -⟩ := (eval_input_eq_ok hinput).1 h
      exact ⟨line, rest, hlines, Session.uses_of_assign hname hassign⟩
  · rw [Session.uses_iff hname] at h
    exact fun act es hes hspared ↦ (hes.ends_lookup? hspared).mono
      (fun s' hs' ↦ (Session.uses_iff hname).2 (hs'.trans h)) (fun _ ↦ id) fun _ ↦ id
  · rw [Session.uses_iff hname] at h
    intro es s' hpasses hspared
    rw [Session.uses_iff hname, hpasses.vars, VariableEvent.lookup?_foldl_on hspared, h]

/-- After `DEFUN F(X) = X`, the name means the function, also when `X` has been assigned. -/
theorem uses_assigned_of_function : ∃ (s s₁ s₂ : Session) (x : Operand) (c : Closure),
    eval (callWithin ⟨1, 0⟩ 0) ⟨1, 0⟩ (Tree.define "F" ["X"] (.ident "X")).resolve s = .ok x s₁ ∧
      s₁.Uses "F" (.closure c) ∧ c.name = "F" ∧ s₁.assign "X" (.boolean true) = .ok s₂ ∧
      s₂.Uses "F" (.closure c) ∧ s₂.unwind.Uses "F" (.closure c) := by
  obtain ⟨-, hnames, -⟩ := uses_assigned
  obtain ⟨hassigned, -, hkept⟩ := hnames "F" rfl
  let s : Session := .start {} {} .unavailable 0
  obtain ⟨x, s₁, s₂, hs₁, hs₂⟩ : ∃ x s₁ s₂,
      eval (callWithin ⟨1, 0⟩ 0) ⟨1, 0⟩ (Tree.define "F" ["X"] (.ident "X")).resolve s = .ok x s₁ ∧
        s₁.assign "X" (.boolean true) = .ok s₂ := ⟨_, _, _, rfl, rfl⟩
  obtain ⟨v, _, hv, huses⟩ := (hassigned _ _ s x s₁).1 _ hs₁
  cases hv
  obtain ⟨hact, -⟩ := hkept s₁ _ huses
  have hspared : ∀ e ∈ [VariableEvent.assigned "X" (.boolean true)], ¬ e.Touches "F" :=
    List.forall_mem_singleton.2 (by decide +kernel)
  have huses' := (Action.assign_eq_ok.2 hs₂ ▸ hact _ _ (.assigned hs₂) hspared).of_ok.2
  exact ⟨s, s₁, s₂, x, _, hs₁, huses, rfl, hs₂, huses',
    (hkept s₂ _ huses').2 [] _ (.unwound .refl) (List.forall_mem_nil _)⟩

/-- After `DEFUN ABS(X) = X`, the name means the builtin still. -/
theorem not_forall_uses_assigned : ¬ ∀ name enter site s x s' e,
    eval enter site (.binary .assign (.ident name) e) s = .ok x s' →
      ∃ v s₁, (do (← eval enter site e).resolve : Action Value) s = .ok v s₁ ∧
        s'.Uses name (Builtin.nameFunction (.reference name) v) := by
  intro h
  let s : Session := .start {} {} .unavailable 0
  obtain ⟨x, s', hs'⟩ : ∃ x s', eval (callWithin ⟨1, 0⟩ 0) ⟨1, 0⟩
      (Tree.define "ABS" ["X"] (.ident "X")).resolve s = .ok x s' := ⟨_, _, rfl⟩
  obtain ⟨v, _, hv, huses⟩ := h "ABS" _ _ s x s' _ hs'
  cases hv
  have hread := huses.read (callWithin ⟨1, 0⟩ 0) ⟨1, 0⟩ "ABS" rfl
  rw [Session.resolve_ident] at hread
  have hlookup := (Action.lookup_eq_ok.1 hread).1
  rw [Session.lookup_of_ofName? (b := .abs) rfl] at hlookup
  cases hlookup

end LineBasic
