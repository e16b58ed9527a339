import LineBasic.Proofs.Numeral
import LineBasic.Proofs.Tree.Parsing

/-!
# How a line is rejected

A line that is not parsed has a fault, and the fault is one of reading: its kind is that of a
malformed line, and it is attributed to the line's number.  There is one exception.  A numeral that
was accepted may have no value, or may not be written in decimal; then the computation of its value
ends the parse with a mishap that is no fault.

* `Refusal.IsOf` — how parsing a run of items may be refused.
* `refusal_invariant` — all forms refuse a run in that way.
* `parseLine_rejection` — what may become of a line, and when a numeral causes it.
-/

set_option autoImplicit false
namespace LineBasic

/-- A fault of reading a line: it says that the line is malformed, and where. -/
structure Fault.IsOfReading (line : Option Int) (f : Fault) : Prop where
  kind : f.kind = .syntaxError ∨ f.kind = .numberFormat ∨ f.kind = .duplicateDefinition
  line : f.line = line
  statement : f.statement = none

/-! ## The tokens of a run -/

namespace Item

mutual

/-- The tokens of an item that are no brackets. -/
def tokens : Item → List Token
  | token t => [t]
  | group _ inside => tokensOfRun inside

/-- The tokens of a run of items that are no brackets. -/
def tokensOfRun : List Item → List Token
  | [] => []
  | i :: is => i.tokens ++ tokensOfRun is

end

theorem tokensOfRun_eq_flatMap (is : List Item) : tokensOfRun is = is.flatMap tokens := by
  induction is with
  | nil => rfl
  | cons i is ih => rw [tokensOfRun, ih, List.flatMap_cons]

/-- A run has the tokens of each run that it is made of. -/
theorem tokensOfRun_subset {is js : List Item} (h : is ⊆ js) : tokensOfRun is ⊆ tokensOfRun js := by
  intro t ht
  rw [tokensOfRun_eq_flatMap, List.mem_flatMap] at ht ⊢
  obtain ⟨i, hi, ht⟩ := ht
  exact ⟨i, h hi, ht⟩

/-- What is inside brackets belongs to the run that the brackets are in. -/
theorem tokensOfRun_inside_subset {is inside : List Item} {bracket : Bracket}
    (h : group bracket inside ∈ is) : tokensOfRun inside ⊆ tokensOfRun is := by
  intro t ht
  rw [tokensOfRun_eq_flatMap is, List.mem_flatMap]
  exact ⟨_, h, ht⟩

theorem tokensOfRun_head_subset {head : Item} {rest inside : List Item} {bracket : Bracket}
    (h : head = group bracket inside) : tokensOfRun inside ⊆ tokensOfRun (head :: rest) := by
  rw [h]
  exact tokensOfRun_inside_subset (List.mem_cons_self ..)

theorem tokensOfRun_of_wrapped? {is inside : List Item} (h : wrapped? is = some inside) :
    tokensOfRun is = tokensOfRun inside := by
  rw [eq_of_wrapped? h]
  exact List.append_nil _

theorem subset_of_mem_cutAt {cut : Item → Bool} {is piece : List Item}
    (h : piece ∈ (cutAt cut is).1) : piece ⊆ is :=
  (isInfix_of_mem_cutAt h).subset

end Item

theorem subset_of_cut {is before after : List Item} {cut : Item}
    (h : is = before ++ cut :: after) : before ⊆ is ∧ after ⊆ is := by
  rw [h]
  exact ⟨List.subset_append_left ..,
    List.subset_append_of_subset_right _ (List.subset_cons_self ..)⟩

theorem subset_of_cutFirst? {test : Item → Bool} {is before after : List Item} {cut : Item}
    (h : cutFirst? test is = some (before, cut, after)) : before ⊆ is ∧ after ⊆ is :=
  subset_of_cut (eq_of_cutFirst? h).1

theorem subset_of_cutElse? {pending : Nat} {is before after : List Item}
    (h : cutElse? pending is = some (before, after)) : before ⊆ is ∧ after ⊆ is :=
  subset_of_cut (eq_of_cutElse? h).choose_spec

/-! ## Refusals -/

/-- How reading a line with the given tokens may end without statements: by a fault of reading, or
at a number among the tokens that has no value. -/
def Stop.IsOfLine (line : Option Int) (tokens : List Token) : Stop → Prop
  | .fault f => f.IsOfReading line
  | .mishap m => ∃ t ∈ tokens, t.cls = .number ∧ Numeral.value t.text = .error m
  | _ => False

/-- How parsing a run of the given tokens may be refused. -/
def Refusal.IsOf (line : Option Int) (tokens : List Token) : Refusal → Prop
  | .mismatch _ => True
  | .stop s => s.IsOfLine line tokens

/-- The parts of a run of the given tokens are runs of them. -/
theorem Parse.Parts.ofTokens {tokens : List Token} {name : String → Prop}
    (hname : ∀ t ∈ tokens, t.cls = .literal ∨ t.cls = .operator → name (Text.upper t.text)) :
    Parse.Parts (fun items ↦ Item.tokensOfRun items ⊆ tokens) name where
  part h hpart := List.Subset.trans (Item.tokensOfRun_subset hpart.subset) h
  inside h hinside := List.Subset.trans (Item.tokensOfRun_inside_subset hinside) h
  word {t} h := hname t (h (List.mem_singleton_self t))

/-- A run of the given tokens is refused only in these ways, whatever trees come of it. -/
theorem refusal_invariant (isBuiltin : String → Bool) (source : Source) (tokens : List Token) :
    Parse.Invariant isBuiltin source (fun items ↦ Item.tokensOfRun items ⊆ tokens) (fun _ ↦ True)
      (fun _ _ ↦ True) (Refusal.IsOf source.line tokens) where
  toParts := .ofTokens fun _ _ _ ↦ trivial
  mismatch _ := trivial
  fault hkind hline hstatement := ⟨hkind.imp_right .inr, hline, hstatement⟩
  mishap {t _} h ht hvalue := ⟨t, h (List.mem_singleton_self t), ht, hvalue⟩
  toForms := .all

/-! ## Scanning -/

theorem onlyFails_numberPiece (source : Source) (c : Char) (cs : List Char) :
    OnlyFails (Fault.IsOfReading source.line) (numberPiece source c cs) := by
  rw [numberPiece.eq_def]
  simp only
  split
  · exact .ok _
  · refine .ite ?_ (.ok _)
    split
    · exact .error ⟨.inr (.inl rfl), rfl, rfl⟩
    · exact .ite (.ok _) (.error ⟨.inr (.inl rfl), rfl, rfl⟩)

theorem onlyFails_nextPiece (source : Source) (c : Char) (cs : List Char) :
    OnlyFails (Fault.IsOfReading source.line) (nextPiece source c cs) := by
  rw [nextPiece]
  refine .ite (.ite (.ok _) (.error ⟨.inl rfl, rfl, rfl⟩)) ?_
  exact .ite (.ok _) (.ite (.ok _) (.ite (.ok _) (.ite (.ok _)
    (.ite (onlyFails_numberPiece source c cs) (.ok _)))))

theorem onlyFails_scanFrom (source : Source) : (column : Nat) → (cs : List Char) →
    OnlyFails (Fault.IsOfReading source.line) (scanFrom source column cs)
  | _, [] => by
    rw [scanFrom]
    exact .ok _
  | column, c :: cs => by
    rw [scanFrom]
    exact .bind (onlyFails_nextPiece source c cs) fun piece ↦
      .bind (onlyFails_scanFrom source _ (cs.drop piece.more)) fun _ ↦ .ok _
termination_by _ cs => cs.length
decreasing_by
  simp only [List.length_drop, List.length_cons]
  omega

/-! ## Settling classes -/

namespace Token

/-- A number token that is a numeral, but without a value that can be computed or written. -/
def IsValueless (t : Token) : Prop :=
  t.cls = .number ∧ Numeral.isNumeral t.text = true ∧
    ((∃ base, Numeral.IsDigitless base t.text) ∨ Numeral.IsTooLarge 16 t.text ∨
      Numeral.IsTooLong t.text)

/-- Settling fails at a binary numeral that can not be written in decimal. -/
theorem isValueless_of_settle {t : Token} {mishap : Number.Mishap}
    (h : settle t = .error mishap) : t.IsValueless := by
  rw [settle] at h
  split at h
  · rename_i hcls
    split at h
    · rename_i hnumeral
      have hnot : ¬ ∃ text, Numeral.decimalOfBinary? t.text = .ok text := by
        rintro ⟨text, htext⟩
        rw [htext] at h
        cases text <;> cases h
      rw [Numeral.exists_decimalOfBinary?_iff, not_and_or, not_not, not_not] at hnot
      rcases hnot with hdigitless | hlong
      · exact ⟨hcls, hnumeral, .inl ⟨2, hdigitless⟩⟩
      · exact ⟨hcls, hnumeral, .inr (.inr hlong)⟩
    · cases h
  · simp only at h
    split at h
    · cases h
    · split at h <;> cases h
  · cases h

/-- A settled number without a value comes from a hexadecimal numeral, as binary ones are written
in decimal then. -/
theorem isValueless_of_value {t settled : Token} {mishap : Number.Mishap}
    (h : settle t = .ok settled) (hcls : settled.cls = .number)
    (hvalue : Numeral.value settled.text = .error mishap) : t.IsValueless := by
  have hnone : ¬ ∃ x, Numeral.value settled.text = .ok x := by
    rw [hvalue]
    nofun
  rw [settle] at h
  split at h
  · rename_i hnumber
    split at h
    · rename_i hnumeral
      obtain ⟨decimal, hdecimal, h⟩ := bind_eq_ok.1 h
      rcases Numeral.eq_of_decimalOfBinary? hdecimal with ⟨n, rfl⟩ | ⟨rfl, hbase⟩
      · cases h
        exact absurd (Numeral.exists_value_toString n) hnone
      · cases h
        obtain ⟨base, hfails⟩ := not_forall.1 (mt Numeral.exists_value_iff.2 hnone)
        rw [not_and_or, not_not, not_not] at hfails
        rcases hfails with hdigitless | hlarge
        · exact ⟨hnumber, hnumeral, .inl ⟨base, hdigitless⟩⟩
        · rcases Numeral.eq_of_base? hlarge.1 with rfl | rfl
          · exact ⟨hnumber, hnumeral, .inr (.inl hlarge)⟩
          · exact absurd hlarge.1 hbase
    · cases h
      cases hcls
  · rename_i hliteral
    simp only at h
    split at h
    · cases h
      cases hcls
    · split at h
      · cases h
        cases hcls
      · cases h
        rw [hliteral] at hcls
        cases hcls
  · cases h
    exact absurd hcls ‹_›

theorem cls_of_fused? {a : Token} {group : List Token} {text : String}
    (h : fused? (a :: group) = some text) : a.cls = .operator := by
  rw [fused?] at h
  split at h
  · rename_i hall
    rw [List.all_cons, Bool.and_eq_true, beq_iff_eq] at hall
    exact hall.1
  · cases h

theorem eq_alone_of_number {t : Token} (h : t.alone.cls = .number) : t.alone = t := by
  rw [alone] at h ⊢
  split
  · rename_i heq
    rw [if_pos heq] at h
    cases h
  · rfl

/-- Fusing leaves number tokens as they are. -/
theorem mem_of_mem_fuse {ts : List Token} {t : Token} (ht : t ∈ fuse ts) (hcls : t.cls = .number) :
    t ∈ ts := by
  fun_induction fuse ts with
  | case1 a b c rest text hfused ih =>
    rcases List.mem_cons.1 ht with rfl | ht
    · exact absurd hcls (by simp [cls_of_fused? hfused])
    · simp [ih ht]
  | case2 a b c rest hnone text hfused ih =>
    rcases List.mem_cons.1 ht with rfl | ht
    · exact absurd hcls (by simp [cls_of_fused? hfused])
    · have := ih ht
      simp only [List.mem_cons] at this ⊢
      tauto
  | case3 a b c rest hnone hnone' ih =>
    rcases List.mem_cons.1 ht with rfl | ht
    · simp [eq_alone_of_number hcls]
    · exact List.mem_cons_of_mem _ (ih ht)
  | case4 a b text hfused =>
    rw [List.mem_singleton.1 ht] at hcls
    exact absurd hcls (by simp [cls_of_fused? hfused])
  | case5 a b hnone =>
    rcases List.mem_pair.1 ht with rfl | rfl
    · simp [eq_alone_of_number hcls]
    · simp [eq_alone_of_number hcls]
  | case6 a =>
    rw [List.mem_singleton.1 ht] at hcls ⊢
    simp [eq_alone_of_number hcls]
  | case7 => cases ht

end Token

/-- A number token of a settled line without a value was valueless before. -/
theorem exists_isValueless_of_settleAll {tokens settled : List Token} {t : Token}
    {mishap : Number.Mishap} (h : Token.settleAll tokens = .ok settled) (ht : t ∈ settled)
    (hcls : t.cls = .number) (hvalue : Numeral.value t.text = .error mishap) :
    ∃ t ∈ tokens, t.IsValueless := by
  rw [Token.settleAll] at h
  obtain ⟨single, hsingle, h⟩ := bind_eq_ok.1 h
  cases h
  have hsource : ∀ u ∈ single, ∃ t ∈ tokens, t.settle = .ok u :=
    forall_mem_of_mapM hsingle fun a ha b hb ↦ ⟨a, ha, hb⟩
  obtain ⟨t', ht', hsettle⟩ := hsource t (Token.mem_of_mem_fuse ht hcls)
  exact ⟨t', ht', Token.isValueless_of_value hsettle hcls hvalue⟩

/-- A line is settled unless it has a valueless number token. -/
theorem exists_isValueless_of_settleAll_error {tokens : List Token} {mishap : Number.Mishap}
    (h : Token.settleAll tokens = .error mishap) : ∃ t ∈ tokens, t.IsValueless := by
  have hfails : OnlyFails (fun _ ↦ ∃ t ∈ tokens, t.IsValueless) (tokens.mapM Token.settle) :=
    .mapM fun t ht _ hsettle ↦ ⟨t, ht, Token.isValueless_of_settle hsettle⟩
  exact OnlyFails.bind hfails (fun _ ↦ .ok _) mishap h

/-! ## Brackets -/

theorem Item.onlyFails_gatherFrom {source : Source} {stack : List Open} {done : List Item}
    {ts : List Token} :
    OnlyFails (Fault.IsOfReading source.line) (gatherFrom source stack done ts) := by
  fun_induction gatherFrom source stack done ts with
  | case1 => exact .ok _
  | case2 => exact .error ⟨.inl rfl, rfl, rfl⟩
  | case3 _ _ _ _ _ _ _ ih => exact ih
  | case4 _ _ _ _ _ _ _ _ ih => exact ih
  | case5 => exact .error ⟨.inl rfl, rfl, rfl⟩
  | case6 => exact .error ⟨.inl rfl, rfl, rfl⟩
  | case7 _ _ _ _ _ ih => exact ih

theorem Item.mem_tokensOfRun_reverse {is : List Item} {t : Token} :
    t ∈ tokensOfRun is.reverse ↔ t ∈ tokensOfRun is := by
  simp only [tokensOfRun_eq_flatMap, List.mem_flatMap, List.mem_reverse]

/-- Gathering makes up no tokens. -/
theorem Item.tokensOfRun_of_gatherFrom {source : Source} {p : Token → Prop} {stack : List Open}
    {done items : List Item} {ts : List Token} (h : gatherFrom source stack done ts = .ok items)
    (hstack : ∀ o ∈ stack, ∀ t ∈ tokensOfRun o.before, p t) (hdone : ∀ t ∈ tokensOfRun done, p t)
    (hts : ∀ t ∈ ts, p t) : ∀ t ∈ tokensOfRun items, p t := by
  fun_induction gatherFrom source stack done ts with
  | case1 done =>
    cases h
    exact fun t ht ↦ hdone t (mem_tokensOfRun_reverse.1 ht)
  | case3 stack done t ts _ bracket _ ih =>
    refine ih h ?_ nofun fun u hu ↦ hts u (List.mem_cons_of_mem _ hu)
    exact List.forall_mem_cons.2 ⟨hdone, hstack⟩
  | case4 done t ts _ _ o stack _ ih =>
    obtain ⟨hbefore, hstack⟩ := List.forall_mem_cons.1 hstack
    refine ih h hstack (fun u hu ↦ ?_) fun u hu ↦ hts u (List.mem_cons_of_mem _ hu)
    rcases List.mem_append.1 hu with hu | hu
    · exact hdone u (mem_tokensOfRun_reverse.1 hu)
    · exact hbefore u hu
  | case7 stack done t ts _ ih =>
    refine ih h hstack (fun u hu ↦ ?_) fun u hu ↦ hts u (List.mem_cons_of_mem _ hu)
    rcases List.mem_cons.1 hu with rfl | hu
    · exact hts u (List.mem_cons_self ..)
    · exact hdone u hu
  | _ => cases h

theorem Item.tokensOfRun_of_gather {source : Source} {tokens : List Token} {items : List Item}
    (h : gather source tokens = .ok items) : tokensOfRun items ⊆ tokens := fun t ht ↦
  tokensOfRun_of_gatherFrom h (List.forall_mem_nil _) (List.forall_mem_nil _) (fun _ hu ↦ hu) t ht

/-! ## Lines -/

theorem onlyFails_parseTopStatement {isBuiltin : String → Bool} {source : Source}
    {tokens : List Token} {items : List Item} (h : Item.tokensOfRun items ⊆ tokens) :
    OnlyFails (Stop.IsOfLine source.line tokens) (parseTopStatement isBuiltin source items) := by
  rw [parseTopStatement]
  refine .ite (.error ⟨.inl rfl, rfl, rfl⟩) ?_
  have hparse :=
    ((refusal_invariant isBuiltin source tokens).meets_parseStatement items h).onlyFails
  split
  · exact .ok _
  · rename_i heq
    exact .error (hparse _ heq)
  · exact .error ⟨.inl rfl, rfl, rfl⟩

theorem onlyFails_parseTokens {isBuiltin : String → Bool} {line : Option Int}
    {tokens : List Token} :
    OnlyFails (Stop.IsOfLine line tokens) (parseTokens isBuiltin line tokens) := by
  rw [parseTokens]
  refine .ite (.ok _) ?_
  simp only
  cases hitems : Item.gather ⟨line, joinTexts tokens⟩ tokens with
  | error f =>
    have hfault : f.IsOfReading line := Item.onlyFails_gatherFrom f hitems
    exact .error hfault
  | ok items =>
    have hsubset := Item.tokensOfRun_of_gather hitems
    refine .mapM fun piece hpiece ↦ onlyFails_parseTopStatement (List.Subset.trans ?_ hsubset)
    exact Item.tokensOfRun_subset (Item.subset_of_mem_cutAt hpiece)

/-- What is done with the tokens of a line. -/
theorem parseLine_of_scan {isBuiltin : String → Bool} {line : Option Int} {text : String}
    {tokens : List Token} (hremark : isRemarkLine text = false)
    (hscan : scan line text = .ok tokens) :
    parseLine isBuiltin line text = (do
      let settled ← (Token.settleAll tokens).mapError Stop.mishap
      let trees ← parseTokens isBuiltin line settled
      return trees.map (·.map Tree.resolve)) := by
  have hsettled : settledTokens line text = (Token.settleAll tokens).mapError Stop.mishap := by
    rw [settledTokens, hscan]
    rfl
  rw [parseLine, parseRaw, hremark, hsettled]
  cases Token.settleAll tokens with
  | error mishap => rfl
  | ok settled => rfl

/-- What may become of a line.  It has statements, or a fault of reading, or it holds a number token
without a value, and nothing but such a token ends it without a fault.  What makes a numeral
valueless is known: no digits, too large a value, or too many digits to rewrite it in decimal. -/
theorem parseLine_rejection (isBuiltin : String → Bool) (line : Option Int) (text : String) :
    ((∃ trees, parseLine isBuiltin line text = .ok trees) ∨
      (∃ f, parseLine isBuiltin line text = .error (.fault f) ∧ f.IsOfReading line) ∨
      ∃ mishap tokens, parseLine isBuiltin line text = .error (.mishap mishap) ∧
        scan line text = .ok tokens ∧ ∃ t ∈ tokens, t.IsValueless) ∧
    (∀ s, (∃ x, Numeral.value s = .ok x) ↔
      ∀ base, ¬ Numeral.IsDigitless base s ∧ ¬ Numeral.IsTooLarge base s) ∧
    ∀ s, (∃ decimal, Numeral.decimalOfBinary? s = .ok decimal) ↔
      ¬ Numeral.IsDigitless 2 s ∧ ¬ Numeral.IsTooLong s := by
  refine ⟨?_, fun _ ↦ Numeral.exists_value_iff, fun _ ↦ Numeral.exists_decimalOfBinary?_iff⟩
  cases hremark : isRemarkLine text with
  | true => exact .inl ⟨[], by rw [parseLine, parseRaw, hremark]; rfl⟩
  | false =>
    cases hscan : scan line text with
    | error f =>
      have hline : parseLine isBuiltin line text = .error (.fault f) := by
        rw [parseLine, parseRaw, hremark, settledTokens, hscan]
        rfl
      exact .inr (.inl ⟨f, hline, onlyFails_scanFrom _ _ _ f hscan⟩)
    | ok tokens =>
      rw [parseLine_of_scan hremark hscan]
      cases hsettle : Token.settleAll tokens with
      | error mishap =>
        have hvalueless := exists_isValueless_of_settleAll_error hsettle
        exact .inr (.inr ⟨mishap, tokens, rfl, rfl, hvalueless⟩)
      | ok settled =>
        change (∃ trees, (parseTokens isBuiltin line settled >>= _) = _) ∨
          (∃ f, (parseTokens isBuiltin line settled >>= _) = _ ∧ _) ∨
          ∃ mishap tokens', (parseTokens isBuiltin line settled >>= _) = _ ∧ _
        cases hparse : parseTokens isBuiltin line settled with
        | ok trees => exact .inl ⟨_, rfl⟩
        | error stop =>
          have hstop := onlyFails_parseTokens stop hparse
          cases stop with
          | fault f => exact .inr (.inl ⟨f, rfl, hstop⟩)
          | mishap mishap =>
            obtain ⟨t, ht, hcls, hvalue⟩ := hstop
            have hvalueless := exists_isValueless_of_settleAll hsettle ht hcls hvalue
            exact .inr (.inr ⟨mishap, tokens, rfl, rfl, hvalueless⟩)
          | _ => cases hstop

/-- A numeral without digits is accepted, and then its line is rejected without a fault. -/
theorem parseLine_digitless :
    ¬ ∀ (isBuiltin : String → Bool) (line : Option Int) (text : String),
      (∃ trees, parseLine isBuiltin line text = .ok trees) ∨
        ∃ f, parseLine isBuiltin line text = .error (.fault f) := by
  intro hall
  have hpiece : nextPiece ⟨none, "0x_"⟩ '0' ['x', '_'] =
      .ok (Piece.whole .number '0' ['x', '_']) := by rfl
  have hchars : "0x_".toList = ['0', 'x', '_'] := by rfl
  have hscan : scan none "0x_" = .ok [⟨"0x_", .number, 0⟩] := by
    rw [scan, hchars, scanFrom, hpiece]
    change (scanFrom _ _ [] >>= _) = _
    rw [scanFrom]
    rfl
  have hsettle : Token.settleAll [⟨"0x_", .number, 0⟩] = .ok [⟨"0x_", .number, 0⟩] := by rfl
  have hparse : parseTokens (fun _ ↦ false) none [⟨"0x_", .number, 0⟩] =
      .error (.mishap (.undefined "no digits")) := by cbv
  have hline : parseLine (fun _ ↦ false) none "0x_" =
      .error (.mishap (.undefined "no digits")) := by
    rw [parseLine_of_scan (by cbv) hscan, hsettle]
    change (parseTokens _ _ _ >>= _) = _
    rw [hparse]
    rfl
  rcases hall (fun _ ↦ false) none "0x_" with ⟨trees, htrees⟩ | ⟨f, hf⟩
  · rw [hline] at htrees
    cases htrees
  · rw [hline] at hf
    cases hf

end LineBasic
