import LineBasic.Proofs.Token.RemarkLines
import LineBasic.Proofs.Tree.BareCalls
import LineBasic.Proofs.Tree.Induction
import LineBasic.Proofs.Tree.Quoting

/-!
# Remarks behind statements

A remark behind the statements of a line is gathered into items and cut at colons like a statement.
It has no tree only if it passes: its brackets are in pairs, it has no colon outside them, and it
has a token at all.  The remark word by itself is a call of that name.

* `Item.Over` — gathering with other items in front.
* `Item.kinds_gatherFrom` — what is gathered, up to what stands inside brackets.
* `IsHarmlessRemark` — the remarks that pass.
* `parseLine_withRemark` — lines with a remark.
-/

set_option autoImplicit false
namespace LineBasic

/-! ## Gathering -/

namespace Item

section
variable {source source' : Source} {base done done' items : List Item} {stack stack' : List Open}

/-- What was gathered stays in front of what follows. -/
theorem gatherFrom_append {ts : List Token} (h : gatherFrom source stack done ts = .ok items)
    (source' : Source) (more : List Token) :
    gatherFrom source' stack done (ts ++ more) = gatherFrom source' [] items.reverse more := by
  fun_induction gatherFrom source stack done ts with
  | case1 done =>
    cases h
    rw [List.reverse_reverse, List.nil_append]
  | case3 stack done t ts hparen bracket hbracket ih =>
    rw [List.cons_append, gatherFrom.eq_def]
    simp only [if_pos hparen, hbracket]
    exact ih h
  | case4 done t ts hparen hbracket o stack hclosing ih =>
    rw [List.cons_append, gatherFrom.eq_def]
    simp only [if_pos hparen, hbracket, if_pos hclosing]
    exact ih h
  | case7 stack done t ts hparen ih =>
    rw [List.cons_append, gatherFrom.eq_def]
    simp only [if_neg hparen]
    exact ih h
  | _ => cases h

/-- The same place in gathering, where other items stand in front of the whole run. -/
inductive Over (base : List Item) : List Open → List Item → List Open → List Item → Prop
  | outside (done : List Item) : Over base [] done [] (done ++ base)
  | inside {stack stack' : List Open} {before before' : List Item} (bracket : Bracket)
      (done : List Item) (h : Over base stack before stack' before') :
      Over base (⟨bracket, before⟩ :: stack) done (⟨bracket, before'⟩ :: stack') done

theorem Over.cons (h : Over base stack done stack' done') (i : Item) :
    Over base stack (i :: done) stack' (i :: done') := by
  cases h with
  | outside done => exact .outside (i :: done)
  | inside bracket done h => exact .inside bracket (i :: done) h

/-- Items in front of a run are in front of what is gathered. -/
theorem Over.gatherFrom (h : Over base stack done stack' done') (ts : List Token) :
    gatherFrom source stack' done' ts =
      (Item.gatherFrom source stack done ts).map (base.reverse ++ ·) := by
  induction ts generalizing stack done stack' done' with
  | nil =>
    cases h with
    | outside done =>
      rw [Item.gatherFrom, Item.gatherFrom, List.reverse_append]
      rfl
    | inside bracket done h => rfl
  | cons t ts ih =>
    rw [Item.gatherFrom.eq_def, Item.gatherFrom.eq_def source stack]
    simp only
    split
    · cases Bracket.ofOpening? t.text with
      | some bracket => exact ih (.inside bracket [] h)
      | none =>
        cases h with
        | outside done => rfl
        | inside bracket done h =>
          simp only
          split
          · exact ih (h.cons _)
          · rfl
    · exact ih (h.cons _)

/-- What an item is outside of brackets: a token of some class, or nothing but brackets. -/
def kind : Item → Option TokenClass
  | token t => some t.cls
  | group _ _ => none

/-- Open groups with the same brackets and the same kinds of items before them. -/
def Open.Alike (o o' : Open) : Prop :=
  o.bracket = o'.bracket ∧ o.before.map kind = o'.before.map kind

/-- Tokens with the same texts and classes are gathered into items of the same kinds. -/
theorem kinds_gatherFrom {ts ts' : List Token} (h : List.Forall₂ Token.Alike ts ts')
    (hstack : List.Forall₂ Open.Alike stack stack') (hdone : done.map kind = done'.map kind) :
    (gatherFrom source stack done ts).toOption.map (List.map kind) =
      (gatherFrom source' stack' done' ts').toOption.map (List.map kind) := by
  induction h generalizing stack done stack' done' with
  | nil =>
    cases hstack with
    | nil =>
      rw [gatherFrom, gatherFrom]
      simp only [Except.toOption, Option.map_some, List.map_reverse, hdone]
    | cons _ _ => rfl
  | @cons t t' ts ts' ht _ ih =>
    rw [gatherFrom.eq_def, gatherFrom.eq_def source']
    simp only
    rw [ht.text, ht.cls]
    split
    · cases Bracket.ofOpening? t'.text with
      | some bracket => exact ih (.cons ⟨rfl, hdone⟩ hstack) rfl
      | none =>
        cases hstack with
        | nil => rfl
        | cons ho hstack =>
          simp only
          rw [ho.1]
          split
          · exact ih hstack (congrArg (none :: ·) ho.2)
          · rfl
    · refine ih hstack ?_
      rw [List.map_cons, List.map_cons, hdone, kind, kind, ht.cls]

/-- A run of tokens in pairs of brackets is gathered by itself, also if more tokens follow. -/
theorem gather_append_of_ok {tokens : List Token} (h : gather source tokens = .ok items)
    (source' : Source) (more : List Token) :
    gather source' (tokens ++ more) = (gather source' more).map (items ++ ·) := by
  have hover : Over items.reverse [] [] [] items.reverse := .outside []
  rw [gather, gatherFrom_append h, hover.gatherFrom, List.reverse_reverse]
  rfl

/-- What is gathered from a line with a remark: the items of the statements, the colon, the remark
word, and what is gathered from the remark. -/
theorem gather_append {tokens : List Token} (h : gather source tokens = .ok items)
    {colon word : Token} (hcolon : colon.cls ≠ .paren) (hword : word.cls ≠ .paren)
    (more : List Token) :
    gather source' (tokens ++ colon :: word :: more) =
      (gather source' more).map (items ++ token colon :: token word :: ·) := by
  have hmark : gather source' [colon, word] = .ok [token colon, token word] := by
    rw [gather, gatherFrom_token hcolon, gatherFrom_token hword]
    rfl
  have hmore : gather source' (colon :: word :: more) =
      (gather source' more).map (token colon :: token word :: ·) :=
    gather_append_of_ok hmark source' more
  rw [gather_append_of_ok h, hmore]
  cases gather source' more <;> rfl

/-! ## Cutting -/

theorem length_cutAt (cut : Item → Bool) (is : List Item) :
    (cutAt cut is).1.length = (cutAt cut is).2.length + 1 := by
  induction is with
  | nil => rfl
  | cons i is ih =>
    rcases hc : cutAt cut is with ⟨pieces, cuts⟩
    rw [hc] at ih
    simp only [cutAt, hc]
    split
    · exact congrArg (· + 1) ih
    · cases pieces with
      | nil => cases ih
      | cons piece pieces => exact ih

/-- What is before a cut and what is behind it are cut by themselves. -/
theorem cutAt_append_cons {cut : Item → Bool} {i : Item} (hi : cut i = true) (is js : List Item) :
    (cutAt cut (is ++ i :: js)).1 = (cutAt cut is).1 ++ (cutAt cut js).1 := by
  induction is with
  | nil => simp [cutAt, hi]
  | cons j is ih =>
    have hlength := length_cutAt cut is
    rw [List.cons_append]
    simp only [cutAt, ih]
    split
    · rfl
    · cases hpieces : (cutAt cut is).1 with
      | nil =>
        rw [hpieces] at hlength
        cases hlength
      | cons piece pieces => rfl

end

end Item

/-! ## Parsing -/

section
variable {isBuiltin : String → Bool} {source source' : Source}

/-- The tree of a statement does not depend on the text of the line. -/
theorem parseTopStatement_of_ok (hline : source'.line = source.line) {items : List Item}
    {tree : Option Tree} (h : parseTopStatement isBuiltin source items = .ok tree) :
    parseTopStatement isBuiltin source' items = .ok tree := by
  have hrecast : Recast Stop.outline (Option.map (Tree.requote id))
      (parseTopStatement isBuiltin source items)
      (parseTopStatement isBuiltin source' (Item.requoteRun id items)) :=
    recast_parseTopStatement hline (.inr fun _ _ _ ↦ Iff.rfl) items
      (List.Subset.refl (Item.tokensOfRun items))
  have hid : Tree.requote id = id := funext Tree.requote_id
  rw [h, Item.requoteRun_id, hid] at hrecast
  generalize parseTopStatement isBuiltin source' items = result at hrecast
  cases hrecast with
  | ok => rw [Option.map_id, id]

/-- A statement that starts with the remark word has no tree. -/
theorem parseTopStatement_remark {word : Token} (hword : word.isWord "REM" = true)
    {items : List Item} (hne : items ≠ []) :
    parseTopStatement isBuiltin source (.token word :: items) = .ok none := by
  obtain ⟨i, is, rfl⟩ := List.exists_cons_of_ne_nil hne
  have hparse : parseStatement isBuiltin source (.token word :: i :: is) = .ok none := by
    rw [parseStatement]
    · exact if_pos hword
    · exact fun _ _ ↦ nofun
  rw [parseTopStatement, if_neg (by simp), hparse]

/-- The remark word by itself is a call. -/
theorem parseTopStatement_remark_nil {word : Token} (hword : word.isWord "REM" = true) :
    parseTopStatement isBuiltin source [.token word] = .ok (some (.call "REM" [] [])) := by
  obtain ⟨hcls, hupper⟩ := Token.isWord_iff.1 hword
  rw [parseTopStatement, if_neg (by simp), parseStatement]
  simp only [tokenTree, hcls, hupper]
  rfl

/-- A remark without a colon outside of brackets is one statement. -/
theorem cutAt_remark {word : Token} (hword : word.isWord "REM" = true) {items : List Item}
    (h : ∀ i ∈ items, i.isClass .sequence = false) :
    (Item.cutAt (·.isClass .sequence) (.token word :: items)).1 = [.token word :: items] := by
  have hclass : (Item.token word).isClass .sequence = false := by
    simp [Item.isClass, (Token.isWord_iff.1 hword).1]
  rw [Item.cutAt_piece (List.forall_mem_cons.2 ⟨hclass, h⟩)]

theorem mapM_parseTopStatement_remark_nil {word : Token} (hword : word.isWord "REM" = true) :
    (Item.cutAt (·.isClass .sequence) [.token word]).1.mapM (parseTopStatement isBuiltin source) =
      .ok [some (.call "REM" [] [])] := by
  rw [cutAt_remark hword (List.forall_mem_nil _), List.mapM_cons,
    parseTopStatement_remark_nil hword]
  rfl

/-- The remark word and the rest of a line are parsed to nothing if there is such a rest and it has
no colon outside of brackets. -/
theorem mapM_parseTopStatement_remark {word : Token} (hword : word.isWord "REM" = true)
    {items : List Item} :
    (Item.cutAt (·.isClass .sequence) (.token word :: items)).1.mapM
        (parseTopStatement isBuiltin source) = .ok [none] ↔
      items ≠ [] ∧ ∀ i ∈ items, i.isClass .sequence = false := by
  constructor
  · intro h
    have hcuts : (Item.cutAt (·.isClass .sequence) (.token word :: items)).2 = [] := by
      have hlength := (forall₂_of_mapM h).length_eq
      rw [Item.length_cutAt, List.length_singleton] at hlength
      exact List.length_eq_zero_iff.1 (by omega)
    rw [Item.cutAt_cuts, List.filter_eq_nil_iff] at hcuts
    have hitems : ∀ i ∈ items, i.isClass .sequence = false := fun i hi ↦
      Bool.eq_false_iff.2 (hcuts i (List.mem_cons_of_mem _ hi))
    refine ⟨?_, hitems⟩
    rintro rfl
    rw [mapM_parseTopStatement_remark_nil hword] at h
    cases h
  · rintro ⟨hne, hitems⟩
    rw [cutAt_remark hword hitems, List.mapM_cons, parseTopStatement_remark hword hne]
    rfl

/-! ## Lines of tokens -/

variable {line : Option Int} {tokens statements remark all : List Token}
  {trees : List (Option Tree)}

theorem parseTokens_eq_ok_iff (hfirst : tokens.head?.all (·.isWord "REM") = false) :
    parseTokens isBuiltin line tokens = .ok trees ↔ ∃ items,
      Item.gather ⟨line, joinTexts tokens⟩ tokens = .ok items ∧
        (Item.cutAt (·.isClass .sequence) items).1.mapM
          (parseTopStatement isBuiltin ⟨line, joinTexts tokens⟩) = .ok trees := by
  rw [parseTokens, hfirst, if_neg Bool.false_ne_true, bind_eq_ok]
  simp only [mapError_eq_ok]

/-- Whether the tokens of a remark pass: there are some, brackets are in pairs, and no colon is
outside of brackets. -/
def IsHarmless (source : Source) (remark : List Token) : Prop :=
  ∃ items, Item.gather source remark = .ok items ∧ items ≠ [] ∧
    ∀ i ∈ items, i.isClass .sequence = false

theorem isHarmless_iff_kinds : IsHarmless source remark ↔ ∃ kinds,
    (Item.gather source remark).toOption.map (List.map Item.kind) = some kinds ∧ kinds ≠ [] ∧
      some .sequence ∉ kinds := by
  have hclass (i : Item) : i.isClass .sequence = false ↔ i.kind ≠ some .sequence := by
    cases i <;> simp [Item.isClass, Item.kind]
  rw [IsHarmless]
  cases Item.gather source remark with
  | error f => simp [Except.toOption]
  | ok items => simp [Except.toOption, hclass]

theorem isHarmless_congr {remark' : List Token} (h : List.Forall₂ Token.Alike remark remark') :
    IsHarmless source remark ↔ IsHarmless source' remark' := by
  rw [isHarmless_iff_kinds, isHarmless_iff_kinds, Item.gather, Item.gather,
    Item.kinds_gatherFrom h .nil rfl]

/-- A line of tokens with a remark is cut into the statements and what the remark is cut into. -/
theorem parseTokens_remarked_iff (isBuiltin : String → Bool) (line : Option Int)
    (hall : IsRemarked statements remark all)
    (hfirst : all.head?.all (·.isWord "REM") = false) {items : List Item}
    (h : Item.gather source statements = .ok items) :
    ∃ word remark', word.isWord "REM" = true ∧ List.Forall₂ Token.Alike remark remark' ∧
      ∀ trees, parseTokens isBuiltin line all = .ok trees ↔ ∃ more,
        Item.gather ⟨line, joinTexts all⟩ remark' = .ok more ∧
          ((Item.cutAt (·.isClass .sequence) items).1 ++
            (Item.cutAt (·.isClass .sequence) (.token word :: more)).1).mapM
              (parseTopStatement isBuiltin ⟨line, joinTexts all⟩) = .ok trees := by
  obtain ⟨colon, word, remark', hcolon, hword, halike, rfl⟩ := hall
  refine ⟨word, remark', hword, halike, fun trees ↦ ?_⟩
  have hliteral := (Token.isWord_iff.1 hword).1
  have hcut : (Item.token colon).isClass .sequence = true := by simp [Item.isClass, hcolon]
  rw [parseTokens_eq_ok_iff hfirst, Item.gather_append h (by simp [hcolon]) (by simp [hliteral])]
  cases Item.gather _ remark' with
  | error f => simp [Except.map]
  | ok more =>
    rw [Except.map]
    simp only [Except.ok.injEq, exists_eq_left', Item.cutAt_append_cons hcut]

/-- The statements of a line are parsed as they are without the remark behind them. -/
theorem parseTokens_remarked (hall : IsRemarked statements remark all)
    (h : parseTokens isBuiltin line statements = .ok trees) (hne : statements ≠ [])
    (hfirst : statements.head?.all (·.isWord "REM") = false) :
    ∃ source word remark', word.isWord "REM" = true ∧ List.Forall₂ Token.Alike remark remark' ∧
      ∀ trees', parseTokens isBuiltin line all = .ok trees' ↔ ∃ items,
        Item.gather source remark' = .ok items ∧ ∃ rest,
          (Item.cutAt (·.isClass .sequence) (.token word :: items)).1.mapM
            (parseTopStatement isBuiltin source) = .ok rest ∧ trees' = trees ++ rest := by
  obtain ⟨items, hgather, htrees⟩ := (parseTokens_eq_ok_iff hfirst).1 h
  have hfirst' : all.head?.all (·.isWord "REM") = false := by
    obtain ⟨colon, word, remark', -, -, -, rfl⟩ := hall
    rwa [List.head?_append_of_ne_nil _ hne]
  obtain ⟨word, remark', hword, halike, hiff⟩ := 
    parseTokens_remarked_iff isBuiltin line hall hfirst' hgather
  have hpieces : (Item.cutAt (·.isClass .sequence) items).1.mapM
      (parseTopStatement isBuiltin ⟨line, joinTexts all⟩) = .ok trees :=
    mapM_of_forall₂ ((forall₂_of_mapM htrees).imp fun _ _ ↦ parseTopStatement_of_ok (by rfl))
  refine ⟨⟨line, joinTexts all⟩, word, remark', hword, halike, fun trees' ↦ ?_⟩
  rw [hiff]
  simp only [List.mapM_append, hpieces, bind_eq_ok, Except.ok.injEq, exists_eq_left', pure_eq_ok,
    eq_comm (a := trees')]

/-- What is empty before the colon is no statement. -/
theorem parseTokens_remarked_nil (hall : IsRemarked [] remark all) :
    parseTokens isBuiltin line all ≠ .ok trees := by
  have hfirst : all.head?.all (·.isWord "REM") = false := by
    obtain ⟨colon, word, remark', hcolon, -, -, rfl⟩ := hall
    simp [Token.isWord, hcolon]
  have hgather : Item.gather ⟨line, ""⟩ [] = .ok [] := rfl
  obtain ⟨word, remark', -, -, hiff⟩ := 
    parseTokens_remarked_iff isBuiltin line hall hfirst hgather
  rw [Ne, hiff]
  rintro ⟨more, -, h⟩
  rw [Item.cutAt, List.cons_append, List.mapM_cons] at h
  cases h

end

/-! ## Lines -/

/-- The remarks that are dropped behind other statements: they have a token, their brackets are in
pairs, and they have no colon outside of brackets. -/
def IsHarmlessRemark (t : String) : Prop :=
  ∃ remark, settledTokens none t = .ok remark ∧ IsHarmless ⟨none, t⟩ remark

instance (t : String) : Decidable (IsHarmlessRemark t) :=
  match ht : settledTokens none t with
  | .error _ => .isFalse fun ⟨_, hremark, _⟩ ↦ by
      rw [ht] at hremark
      cases hremark
  | .ok remark =>
    match hitems : Item.gather ⟨none, t⟩ remark with
    | .error _ => .isFalse fun ⟨_, hremark, _, hgather, _⟩ ↦ by
        rw [ht] at hremark
        cases hremark
        rw [hitems] at hgather
        cases hgather
    | .ok items =>
      decidable_of_iff (items ≠ [] ∧ ∀ i ∈ items, i.isClass .sequence = false) (by
        rw [IsHarmlessRemark, ht]
        simp only [Except.ok.injEq, exists_eq_left', IsHarmless, hitems])

example : IsHarmlessRemark "twice (a : b)" := by decide +kernel

example : ∀ t ∈ ["", "a : b", "a (b", "say \"a", "1."], ¬ IsHarmlessRemark t := by decide +kernel

theorem settledTokens_eq_ok_congr {s : String} {settled : List Token} (line line' : Option Int) :
    settledTokens line s = .ok settled ↔ settledTokens line' s = .ok settled := by
  rw [settledTokens_eq_ok_iff, settledTokens_eq_ok_iff]

section
variable {isBuiltin : String → Bool} {line : Option Int} {s t : String}
  {statements remark : List Token} {trees trees' : List (Option Tree)}

/-- A line that is accepted is parsed from its tokens, and the first one is not the remark word. -/
theorem exists_of_parseRaw (hremark : isRemarkLine s = false)
    (h : parseRaw isBuiltin line s = .ok trees) :
    ∃ statements, settledTokens line s = .ok statements ∧
      parseTokens isBuiltin line statements = .ok trees ∧
        (statements ≠ [] → statements.head?.all (·.isWord "REM") = false) := by
  rw [parseRaw, hremark] at h
  obtain ⟨statements, hstatements, h⟩ := bind_eq_ok.1 h
  refine ⟨statements, hstatements, h, fun hne ↦ ?_⟩
  obtain ⟨t, ts, rfl⟩ := List.exists_cons_of_ne_nil hne
  rw [List.head?_cons, Option.all_some, Bool.eq_false_iff]
  intro hword
  rw [isRemarkLine_of_isWord hstatements hword] at hremark
  cases hremark

/-- A line with a remark that is accepted has statements before the colon, with the trees that they
have without the remark. -/
theorem of_parseRaw_withRemark (hremark : isRemarkLine s = false)
    (h : parseRaw isBuiltin line s = .ok trees)
    (h' : parseRaw isBuiltin line (withRemark s t) = .ok trees') :
    (∃ c ∈ s.toList, isSpaceChar c = false) ∧
      ∃ rest, trees' = trees ++ rest ∧ (rest = [none] → IsHarmlessRemark t) := by
  obtain ⟨statements, hstatements, htrees, hfirst⟩ := exists_of_parseRaw hremark h
  rw [parseRaw, isRemarkLine_withRemark, hremark] at h'
  obtain ⟨all, hall, h'⟩ := bind_eq_ok.1 h'
  obtain ⟨remark, ht, hremarked⟩ := isRemarked_of_settledTokens hstatements hall
  have hne : statements ≠ [] := by
    rintro rfl
    exact parseTokens_remarked_nil hremarked h'
  obtain ⟨source, word, remark', hword, halike, hiff⟩ :=
    parseTokens_remarked hremarked htrees hne (hfirst hne)
  obtain ⟨items, hitems, rest, hrest, rfl⟩ := (hiff _).1 h'
  refine ⟨(settledTokens_ne_nil_iff hstatements).1 hne, rest, rfl, ?_⟩
  rintro rfl
  exact ⟨remark, (settledTokens_eq_ok_congr line none).1 ht,
    (isHarmless_congr halike).2 ⟨items, hitems, (mapM_parseTopStatement_remark hword).1 hrest⟩⟩

/-- How a line with statements is parsed with a remark behind it that can be scanned. -/
theorem parseRaw_withRemark_eq_ok (hremark : isRemarkLine s = false)
    (h : parseRaw isBuiltin line s = .ok trees) (hs : ∃ c ∈ s.toList, isSpaceChar c = false)
    (ht : settledTokens line t = .ok remark) :
    ∃ source word remark', word.isWord "REM" = true ∧ List.Forall₂ Token.Alike remark remark' ∧
      ∀ items rest, Item.gather source remark' = .ok items →
        (Item.cutAt (·.isClass .sequence) (.token word :: items)).1.mapM
          (parseTopStatement isBuiltin source) = .ok rest →
        parseRaw isBuiltin line (withRemark s t) = .ok (trees ++ rest) := by
  obtain ⟨statements, hstatements, htrees, hfirst⟩ := exists_of_parseRaw hremark h
  obtain ⟨all, hall, hremarked⟩ := exists_settledTokens_withRemark hstatements ht
  have hne := (settledTokens_ne_nil_iff hstatements).2 hs
  obtain ⟨source, word, remark', hword, halike, hiff⟩ :=
    parseTokens_remarked hremarked htrees hne (hfirst hne)
  refine ⟨source, word, remark', hword, halike, fun items rest hitems hrest ↦ ?_⟩
  rw [parseRaw, isRemarkLine_withRemark, hremark, hall]
  exact (hiff _).2 ⟨items, hitems, rest, hrest, rfl⟩

/-- A remark that is harmless has no tree. -/
theorem parseRaw_withRemark_of_isHarmless (hremark : isRemarkLine s = false)
    (h : parseRaw isBuiltin line s = .ok trees) (hs : ∃ c ∈ s.toList, isSpaceChar c = false)
    (ht : IsHarmlessRemark t) :
    parseRaw isBuiltin line (withRemark s t) = .ok (trees ++ [none]) := by
  obtain ⟨remark, ht, hharmless⟩ := ht
  obtain ⟨source, word, remark', hword, halike, hparse⟩ :=
    parseRaw_withRemark_eq_ok hremark h hs ((settledTokens_eq_ok_congr none line).1 ht)
  obtain ⟨items, hitems, hharmless⟩ : IsHarmless source remark' :=
    (isHarmless_congr halike).1 hharmless
  exact hparse items [none] hitems ((mapM_parseTopStatement_remark hword).2 hharmless)

/-- A remark without a text is a call of its word. -/
theorem parseRaw_withRemark_of_blank (hremark : isRemarkLine s = false)
    (h : parseRaw isBuiltin line s = .ok trees) (hs : ∃ c ∈ s.toList, isSpaceChar c = false)
    (ht : ∀ c ∈ t.toList, isSpaceChar c = true) :
    parseRaw isBuiltin line (withRemark s t) = .ok (trees ++ [some (.call "REM" [] [])]) := by
  obtain ⟨source, word, remark', hword, halike, hparse⟩ :=
    parseRaw_withRemark_eq_ok hremark h hs (settledTokens_of_blank ht)
  cases halike
  exact hparse [] _ rfl (mapM_parseTopStatement_remark_nil hword)

theorem parseLine_eq_ok_iff : parseLine isBuiltin line s = .ok trees ↔
    ∃ raw, parseRaw isBuiltin line s = .ok raw ∧ trees = raw.map (·.map Tree.resolve) := by
  rw [parseLine, bind_eq_ok]
  simp only [pure_eq_ok, eq_comm (a := trees)]

end

/-- A remark behind a line that is accepted is dropped if and only if there are statements before it
and it is harmless.  A line with a remark that is accepted at all begins with the statements of the
line without it.  A remark without a text is not dropped: it is a call of a name. -/
theorem parseLine_withRemark (isBuiltin : String → Bool) (line : Option Int) {s : String}
    {trees : List (Option Tree)} (hremark : isRemarkLine s = false)
    (h : parseLine isBuiltin line s = .ok trees) (t : String) :
    (parseLine isBuiltin line (withRemark s t) = .ok (trees ++ [none]) ↔
      (∃ c ∈ s.toList, isSpaceChar c = false) ∧ IsHarmlessRemark t) ∧
    (∀ trees', parseLine isBuiltin line (withRemark s t) = .ok trees' → trees <+: trees') ∧
    ((∃ c ∈ s.toList, isSpaceChar c = false) → (∀ c ∈ t.toList, isSpaceChar c = true) →
      parseLine isBuiltin line (withRemark s t) =
        .ok (trees ++ [some (.call "REM" [] [])])) := by
  obtain ⟨raw, hraw, rfl⟩ := parseLine_eq_ok_iff.1 h
  refine ⟨⟨fun h' ↦ ?_, fun ⟨hs, ht⟩ ↦ ?_⟩, fun trees' h' ↦ ?_, fun hs ht ↦ ?_⟩
  · obtain ⟨raw', hraw', heq⟩ := parseLine_eq_ok_iff.1 h'
    obtain ⟨hs, rest, rfl, hrest⟩ := of_parseRaw_withRemark hremark hraw hraw'
    refine ⟨hs, hrest ?_⟩
    rw [List.map_append, List.append_cancel_left_eq] at heq
    obtain ⟨tree, rfl, htree⟩ := List.map_eq_singleton_iff.1 heq.symm
    rw [Option.map_eq_none_iff.1 htree]
  · exact parseLine_eq_ok_iff.2 ⟨_, parseRaw_withRemark_of_isHarmless hremark hraw hs ht, by simp⟩
  · obtain ⟨raw', hraw', rfl⟩ := parseLine_eq_ok_iff.1 h'
    obtain ⟨-, rest, rfl, -⟩ := of_parseRaw_withRemark hremark hraw hraw'
    rw [List.map_append]
    exact List.prefix_append ..
  · refine parseLine_eq_ok_iff.2 ⟨_, parseRaw_withRemark_of_blank hremark hraw hs ht, ?_⟩
    rw [List.map_append]
    rfl

/-- `PRINT 1 : REM one` prints only. -/
theorem parseLine_withRemark_print : ∃ trees,
    parseLine Builtin.isName none "PRINT 1" = .ok trees ∧
      parseLine Builtin.isName none (withRemark "PRINT 1" "one") = .ok (trees ++ [none]) := by
  have hok : (parseLine Builtin.isName none "PRINT 1").isOk = true := by decide +kernel
  cases h : parseLine Builtin.isName none "PRINT 1" with
  | error stop =>
    rw [h] at hok
    cases hok
  | ok trees =>
    exact ⟨trees, rfl, (parseLine_withRemark Builtin.isName none (by decide +kernel) h "one").1.2
      ⟨⟨'P', by simp, rfl⟩, by decide +kernel⟩⟩

/-- `PRINT 1 : REM ` calls what has the name `REM`. -/
theorem not_forall_parseLine_withRemark :
    ¬ ∀ (s t : String) (trees : List (Option Tree)), isRemarkLine s = false → '\n' ∉ t.toList →
      parseLine Builtin.isName none s = .ok trees →
      parseLine Builtin.isName none (withRemark s t) = .ok (trees ++ [none]) := by
  intro hall
  have hremark : isRemarkLine "PRINT 1" = false := by decide +kernel
  have hok : (parseRaw Builtin.isName none "PRINT 1").isOk = true := by decide +kernel
  cases hraw : parseRaw Builtin.isName none "PRINT 1" with
  | error stop =>
    rw [hraw] at hok
    cases hok
  | ok raw =>
    have hcall := parseLine_eq_ok_iff.2 ⟨_, parseRaw_withRemark_of_blank hremark hraw
      ⟨'P', by simp, rfl⟩ (t := "") (by simp), rfl⟩
    rw [hall _ _ _ hremark (by simp) (parseLine_eq_ok_iff.2 ⟨raw, hraw, rfl⟩)] at hcall
    simp at hcall

end LineBasic
