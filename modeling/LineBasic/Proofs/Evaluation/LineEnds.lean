import LineBasic.Proofs.Evaluation.Arguments
import LineBasic.Proofs.Tree.BareCalls
import LineBasic.Proofs.Tree.Remarks

/-!
# What ends a printed line

A print statement writes the texts of its arguments, with tabulators for commas between them, and
then the end of the line, unless its last argument is nothing.  An argument that is left out behind
a separator is nothing, and so is one that is there and comes to nothing.

* `Item.endsSeparated`, `getLast?_of_supplies` — arguments that are left out are nothing.
* `Builtin.written`, `Builtin.lineEnd` — the texts that are written one after the other.
* `Builtin.getLast?_written_iff` — when the last of them is the end of the line.
* `eval_printing` — the result.
-/

set_option autoImplicit false
namespace LineBasic

/-! ## Arguments that are left out -/

/-- Whether a list of arguments ends in a separator, so that its last argument is left out. -/
def Item.endsSeparated (items : List Item) : Bool :=
  items.getLast?.any (·.isClass .separator)

theorem exists_separated_eq {items : List Item} (h : Item.endsSeparated items = true) :
    ∃ pieces, (separated items).1 = pieces ++ [[]] := by
  obtain ⟨last, hlast, hclass⟩ := Option.any_eq_true _ _ |>.1 h
  obtain ⟨front, rfl⟩ := List.getLast?_eq_some_iff.1 hlast
  exact ⟨_, Item.cutAt_append_cons hclass front []⟩

section
variable {isBuiltin : String → Bool} {source : Source} {items : List Item} {ts : List Tree}
  {separators : List Separator}

/-- The tree of an argument that is left out is null. -/
theorem getLast?_of_parseArguments (h : Item.endsSeparated items = true)
    (hargs : parseArguments isBuiltin source items = .ok (ts, separators)) :
    ts.getLast? = some .null := by
  rw [parseArguments] at hargs
  split at hargs
  · rename_i hempty
    rw [List.isEmpty_iff.1 hempty] at h
    cases h
  obtain ⟨pieces, hpieces⟩ := exists_separated_eq h
  obtain ⟨us, hus, hend⟩ := bind_eq_ok.1 hargs
  cases hend
  rw [parsePieces_eq, hpieces, List.mapM_append] at hus
  obtain ⟨front, -, hus⟩ := bind_eq_ok.1 hus
  obtain ⟨last, hlast, hend⟩ := bind_eq_ok.1 hus
  cases hend
  rw [List.mapM_cons, parseExpression, List.mapM_nil] at hlast
  cases hlast
  exact List.getLast?_concat ..

end

section
variable {enter : Closure → List Value → Action Value} {site : Site} {ts : List Tree}
  {s s' : Session}

theorem getLast?_of_evalAll {xs : List Operand} (hts : ts.getLast? = some .null)
    (h : evalAll enter site ts s = .ok xs s') : xs.getLast? = some (.value .null) := by
  induction ts generalizing s xs with
  | nil => cases hts
  | cons t ts ih =>
    obtain ⟨x, s₁, hx, hrest⟩ := bind_run_eq_ok.1 h
    obtain ⟨ys, s₂, hys, hend⟩ := bind_run_eq_ok.1 hrest
    cases hend
    cases ts with
    | nil =>
      cases hts
      cases hx
      cases hys
      rfl
    | cons u us =>
      rw [List.getLast?_cons_cons] at hts
      rw [List.getLast?_cons, ih hts hys]
      rfl

theorem getLast?_of_resolveAll {xs : List Operand} {vs : List Value}
    (hxs : xs.getLast? = some (.value .null)) (h : Operand.resolveAll xs s = .ok vs s') :
    vs.getLast? = some .null := by
  obtain ⟨front, rfl⟩ := List.getLast?_eq_some_iff.1 hxs
  rw [Operand.resolveAll, List.mapM_append] at h
  obtain ⟨us, s₁, -, hrest⟩ := bind_run_eq_ok.1 h
  obtain ⟨last, s₂, hlast, hend⟩ := bind_run_eq_ok.1 hrest
  cases hend
  cases hlast
  exact List.getLast?_concat ..

/-- Arguments of which the last one is left out come to values of which the last one is null. -/
theorem getLast?_of_supplies {vs : List Value} (hts : ts.getLast? = some .null)
    (h : Supplies enter site ts s vs s') : vs.getLast? = some .null := by
  obtain ⟨xs, s₁, hxs, hvs⟩ := bind_run_eq_ok.1 h
  exact getLast?_of_resolveAll (getLast?_of_evalAll hts hxs) hvs

end

/-! ## Texts -/

/-- A session in which texts are printed one after the other. -/
def Session.printing (s : Session) (texts : List String) : Session :=
  { s with console := texts.foldl Console.print s.console }

theorem Session.printing_append (s : Session) (first second : List String) :
    s.printing (first ++ second) = (s.printing first).printing second := by
  simp only [printing, List.foldl_append]

namespace Builtin

/-- A value has a text, which arrays in the heap are part of. -/
def HasText (asCode : Bool) (h : Heap) (v : Value) (text : String) : Prop :=
  ∀ s : Session, s.heap = h → printedText asCode v s = .ok text s

/-- The texts from the second on, with tabulators for commas before them. -/
def tabbed : List Separator → List String → List String
  | _, [] => []
  | separators, text :: texts =>
    (if separators.head? = some .comma then ["\t"] else []) ++
      text :: tabbed separators.tail texts

/-- What is written for the texts of arguments. -/
def written (separators : List Separator) : List String → List String
  | [] => []
  | text :: texts => text :: tabbed separators texts

/-- What is written behind the texts of arguments. -/
def lineEnd (vs : List Value) : List String :=
  if leavesLineOpen vs then [] else ["\n"]

section
variable {asCode : Bool} {separators : List Separator} {vs : List Value} {v : Value}
  {text : String} {texts : List String} {s s' : Session}

/-- Nothing but the heap is read for the text of a value. -/
theorem exists_printedText_eq (asCode : Bool) (v : Value) : ∃ read : Heap → Except Stop String,
    ∀ s, printedText asCode v s = Action.ofStop (read s.heap) s := by
  unfold printedText
  split
  · rename_i x
    cases Number.truncate x with
    | error mishap => exact ⟨fun _ ↦ .error (.mishap mishap), fun _ ↦ rfl⟩
    | ok n =>
      simp only [Action.ofNumber, pure_bind]
      cases characterOf n with
      | ok c => exact ⟨fun _ ↦ .ok (String.singleton c), fun _ ↦ rfl⟩
      | error range => cases range <;> exact ⟨fun _ ↦ .error _, fun _ ↦ rfl⟩
  · exact ⟨fun h ↦ h.describe v, fun _ ↦ rfl⟩

theorem hasText_of_printedText (h : printedText asCode v s = .ok text s') :
    s' = s ∧ HasText asCode s.heap v text := by
  obtain ⟨read, hread⟩ := exists_printedText_eq asCode v
  rw [hread] at h
  obtain ⟨htext, rfl⟩ := Action.ofStop_eq_ok.1 h
  refine ⟨rfl, fun s hheap ↦ ?_⟩
  rw [hread, hheap, htext]
  rfl

theorem of_printRest (h : printRest asCode separators vs s = .ok () s') :
    ∃ texts, List.Forall₂ (HasText asCode s.heap) vs texts ∧
      s' = s.printing (tabbed separators texts) := by
  induction vs generalizing separators s with
  | nil =>
    cases h
    exact ⟨[], .nil, rfl⟩
  | cons v vs ih =>
    have hrest {s : Session} (h : (do
        Action.print (← printedText asCode v)
        printRest asCode separators.tail vs : Action Unit) s = .ok () s') :
        ∃ text texts, List.Forall₂ (HasText asCode s.heap) (v :: vs) (text :: texts) ∧
          s' = s.printing (text :: tabbed separators.tail texts) := by
      obtain ⟨text, s₁, htext, hprint⟩ := bind_run_eq_ok.1 h
      obtain ⟨rfl, htext⟩ := hasText_of_printedText htext
      obtain ⟨texts, htexts, rfl⟩ := ih (s := s₁.printing [text]) hprint
      exact ⟨text, texts, .cons htext htexts, rfl⟩
    rw [printRest] at h
    split at h
    · rename_i hcomma
      obtain ⟨text, texts, htexts, rfl⟩ := hrest (s := s.printing ["\t"]) h
      refine ⟨text :: texts, htexts, ?_⟩
      rw [tabbed, if_pos hcomma]
      rfl
    · rename_i hcomma
      obtain ⟨text, texts, htexts, rfl⟩ := hrest h
      refine ⟨text :: texts, htexts, ?_⟩
      rw [tabbed, if_neg hcomma]
      rfl

theorem of_printOf (h : printOf asCode separators vs s = .ok v s') :
    v = .null ∧ ∃ texts, List.Forall₂ (HasText asCode s.heap) vs texts ∧
      s' = s.printing (written separators texts ++ lineEnd vs) := by
  have hend {s : Session} (h : (do
      if !leavesLineOpen vs then Action.print "\n"
      return .null : Action Value) s = .ok v s') : v = .null ∧ s' = s.printing (lineEnd vs) := by
    unfold lineEnd
    cases hopen : leavesLineOpen vs with
    | true =>
      rw [hopen] at h
      cases h
      exact ⟨rfl, rfl⟩
    | false =>
      rw [hopen] at h
      cases h
      exact ⟨rfl, rfl⟩
  cases vs with
  | nil =>
    obtain ⟨rfl, rfl⟩ := hend h
    exact ⟨rfl, [], .nil, rfl⟩
  | cons w ws =>
    obtain ⟨text, s₁, htext, hprint⟩ := bind_run_eq_ok.1 h
    obtain ⟨rfl, htext⟩ := hasText_of_printedText htext
    obtain ⟨_, s₂, htab, hrest⟩ := bind_run_eq_ok.1 hprint
    cases htab
    obtain ⟨_, s₃, hrest, hlast⟩ := bind_run_eq_ok.1 hrest
    obtain ⟨texts, htexts, rfl⟩ := of_printRest hrest
    obtain ⟨rfl, rfl⟩ := hend hlast
    refine ⟨rfl, text :: texts, .cons htext htexts, ?_⟩
    rw [Session.printing_append]
    rfl

theorem getLast?_tabbed (separators : List Separator) (texts : List String) :
    (tabbed separators texts).getLast? = texts.getLast? := by
  induction texts generalizing separators with
  | nil => rfl
  | cons text texts ih =>
    rw [tabbed, List.getLast?_append, List.getLast?_cons, List.getLast?_cons, ih]
    rfl

theorem getLast?_written (separators : List Separator) (texts : List String) :
    (written separators texts).getLast? = texts.getLast? := by
  cases texts with
  | nil => rfl
  | cons text texts => rw [written, List.getLast?_cons, List.getLast?_cons, getLast?_tabbed]

theorem eq_empty_of_hasText {h : Heap} (htext : HasText asCode h .null text) : text = "" := by
  have hnull (s : Session) : printedText asCode .null s = .ok "" s := by
    cases asCode <;> rfl
  have hsame := htext { Session.start {} {} .unavailable 0 with heap := h } rfl
  rw [hnull] at hsame
  cases hsame
  rfl

/-- Where the last value is null, the last text is empty. -/
theorem getLast?_of_hasText {h : Heap} (htexts : List.Forall₂ (HasText asCode h) vs texts)
    (hlast : vs.getLast? = some .null) : texts.getLast? = some "" := by
  rw [← List.head?_reverse] at hlast ⊢
  have hreversed := List.forall₂_reverse_iff.2 htexts
  generalize vs.reverse = us at hlast hreversed
  generalize texts.reverse = last at hreversed ⊢
  cases hreversed with
  | nil => cases hlast
  | cons htext _ =>
    cases hlast
    rw [eq_empty_of_hasText htext]
    rfl

theorem leavesLineOpen_iff : leavesLineOpen vs = true ↔ vs.getLast? = some .null := by
  unfold leavesLineOpen
  split
  · rename_i hlast
    simp [hlast]
  · rename_i hlast
    simpa using hlast

/-- The last text that is written is the end of the line exactly if the last value is not null.
Nothing else that is written last can be one, since the text of null is empty. -/
theorem getLast?_written_iff {h : Heap} (htexts : List.Forall₂ (HasText asCode h) vs texts)
    (separators : List Separator) :
    (written separators texts ++ lineEnd vs).getLast? = some "\n" ↔ vs.getLast? ≠ some .null := by
  by_cases hlast : vs.getLast? = some .null
  · rw [lineEnd, if_pos (leavesLineOpen_iff.2 hlast), List.append_nil, getLast?_written,
      getLast?_of_hasText htexts hlast]
    exact iff_of_false (by decide) (not_not_intro hlast)
  · rw [lineEnd, if_neg (mt leavesLineOpen_iff.1 hlast), List.getLast?_concat]
    exact iff_of_true rfl hlast

theorem invoke_printing {b : Builtin} (hb : b = .print ∨ b = .emit)
    (enter : Closure → List Value → Action Value) (site : Site) (separators : List Separator)
    (xs : List Operand) : b.invoke enter site separators xs = (do
      let vs ← Operand.resolveAll xs
      return .value (← printOf (b == .emit) separators vs)) := by
  obtain rfl | rfl := hb <;> rfl

end

end Builtin

/-! ## The result -/

section
variable {enter : Closure → List Value → Action Value} {site : Site} {keyword : String}
  {b : Builtin} {args : List Tree} {separators : List Separator} {x : Operand} {s s' : Session}

/-- A print statement evaluates its arguments and prints what is written for their values. -/
theorem exists_printing (hkeyword : Builtin.ofName? keyword = some b)
    (hb : b = .print ∨ b = .emit)
    (h : eval enter site (.call keyword args separators) s = .ok x s') :
    x = .value .null ∧ ∃ vs s₁ texts, Supplies enter site args s vs s₁ ∧
      List.Forall₂ (Builtin.HasText (b == .emit) s₁.heap) vs texts ∧
      s' = s₁.printing (Builtin.written separators texts ++ Builtin.lineEnd vs) := by
  rw [eval, hkeyword] at h
  obtain ⟨xs, s₁, hxs, hinvoke⟩ := callBuiltin_eq_ok h
  rw [Builtin.invoke_printing hb] at hinvoke
  obtain ⟨vs, s₂, hvs, hprint⟩ := bind_run_eq_ok.1 hinvoke
  obtain ⟨v, s₃, hprint, hend⟩ := bind_run_eq_ok.1 hprint
  cases hend
  obtain ⟨rfl, texts, htexts, hs'⟩ := Builtin.of_printOf hprint
  exact ⟨rfl, vs, s₂, texts, bind_run_eq_ok.2 ⟨xs, s₁, hxs, hvs⟩, htexts, hs'⟩

/-- A print statement, wherever it is evaluated, evaluates the arguments between its separators and
prints the texts of their values.  The last thing it prints is the end of the line exactly if the
last value is not null.  The value of an argument that is left out behind a separator is null.  So
the source decides the end of the line, unless the last argument is there and comes to null. -/
theorem eval_printing (hkeyword : Builtin.ofName? keyword = some b) (hb : b = .print ∨ b = .emit)
    {isBuiltin : String → Bool} {source : Source} {items : List Item}
    (hargs : parseArguments isBuiltin source items = .ok (args, separators)) (binders : Binders)
    (h : eval enter site (.call keyword (Tree.resolveAll binders args) separators) s = .ok x s') :
    x = .value .null ∧ ∃ vs s₁ texts,
      Supplies enter site (Tree.resolveAll binders args) s vs s₁ ∧
      List.Forall₂ (Builtin.HasText (b == .emit) s₁.heap) vs texts ∧
      let printed := Builtin.written separators texts ++ Builtin.lineEnd vs
      s' = s₁.printing printed ∧
      (printed.getLast? = some "\n" ↔ vs.getLast? ≠ some .null) ∧
      (Item.endsSeparated items = true → vs.getLast? = some .null) ∧
      ((printed.getLast? = some "\n" ↔ items = [] ∨ Item.endsSeparated items = false) ↔
        Item.endsSeparated items = true ∨ vs.getLast? ≠ some .null) := by
  obtain ⟨rfl, vs, s₁, texts, hvs, htexts, rfl⟩ := exists_printing hkeyword hb h
  have hends := Builtin.getLast?_written_iff htexts separators
  have homitted (h : Item.endsSeparated items = true) : vs.getLast? = some .null := by
    refine getLast?_of_supplies ?_ hvs
    rw [Tree.resolveAll_eq_map, List.getLast?_map, getLast?_of_parseArguments h hargs]
    rfl
  have hnone (h : items = []) : vs.getLast? ≠ some .null := by
    rw [h, parseArguments] at hargs
    cases hargs
    cases hvs
    exact fun hnull ↦ by cases hnull
  refine ⟨rfl, vs, s₁, texts, hvs, htexts, rfl, hends, homitted, ?_⟩
  rw [hends]
  cases hseparated : Item.endsSeparated items with
  | true =>
    have hlast := homitted hseparated
    have hne : items ≠ [] := fun h ↦ hnone h hlast
    simp [hlast, hne]
  | false => simp

/-- `PRINT "A"` ends the line. -/
theorem eval_printing_string : ∃ printed,
    eval (callWithin ⟨1, 0⟩ 0) ⟨1, 0⟩ (.call "PRINT" (Tree.resolveAll [] [.string "A"]) [])
      (.start {} {} .unavailable 0) =
        .ok (.value .null) (Session.printing (.start {} {} .unavailable 0) printed) ∧
    printed.getLast? = some "\n" := by
  have hargs : parseArguments Builtin.isName ⟨none, ""⟩ [.token ⟨"A", .quoted, 6⟩] =
      .ok ([.string "A"], []) :=
    parseArguments_of_unseparated (List.cons_ne_nil _ _) (by simp [Item.isClass])
      (parseExpression_token ⟨none, ""⟩ rfl)
  obtain ⟨x, s', h⟩ : ∃ x s', eval (callWithin ⟨1, 0⟩ 0) ⟨1, 0⟩
      (.call "PRINT" (Tree.resolveAll [] [.string "A"]) []) (.start {} {} .unavailable 0) =
        .ok x s' := ⟨_, _, rfl⟩
  obtain ⟨rfl, vs, s₁, texts, hvs, -, rfl, hlast, -⟩ :=
    eval_printing (b := .print) (by decide) (.inl rfl) hargs [] h
  cases hvs
  exact ⟨_, h, hlast.2 fun hnull ↦ by cases hnull⟩

/-- `PRINT UNDEFINED` does not end the line, although no argument is left out. -/
theorem not_forall_eval_printing : ¬ ∀ site keyword source items args separators s p s',
    (keyword = "PRINT" ∨ keyword = "EMIT") → Item.endsSeparated items = false →
    parseArguments Builtin.isName source items = .ok (args, separators) →
    execute site (Tree.call keyword args separators).resolve s = .ok p s' →
      ∃ before, s'.console.output = before ++ "\n" := by
  intro h
  have hargs : parseArguments Builtin.isName ⟨none, ""⟩ [.token ⟨"UNDEFINED", .literal, 6⟩] =
      .ok ([.ident (Text.upper "UNDEFINED")], []) :=
    parseArguments_of_unseparated (List.cons_ne_nil _ _) (by simp [Item.isClass])
      (parseExpression_name ⟨none, ""⟩ rfl (by decide +kernel))
  obtain ⟨p, s', hexecute, houtput⟩ : ∃ p s', execute ⟨1, 0⟩
      (Tree.call "PRINT" [.ident (Text.upper "UNDEFINED")] []).resolve
        (.start {} {} .unavailable 0) = .ok p s' ∧ s'.console.output = "" := by
    decide +kernel
  obtain ⟨before, hbefore⟩ := h _ _ _ _ _ _ _ _ _ (.inl rfl) rfl hargs hexecute
  rw [houtput] at hbefore
  have hlength := congrArg String.length hbefore
  rw [String.length_append, show "".length = 0 by decide, show "\n".length = 1 by decide] at hlength
  cases hlength

end

end LineBasic
