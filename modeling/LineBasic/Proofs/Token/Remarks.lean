import LineBasic.Proofs.Program.References
import LineBasic.Proofs.Token.Rejoining
import LineBasic.Tree.Line

/-!
# The tokens of a remark

A remark after the statements of a line is scanned and settled like the rest of the line.  No token
of the statements goes on past a blank, and no operator has a colon in it, so that the tokens of the
line are those of the statements, a colon, the remark word, and those of the remark by itself, at
later columns.

* `withRemark` — a line with a remark behind it.
* `Token.Alike` — tokens that differ in their columns only.
* `Pieces.scans` — a text is scanned in the same way before a space.
* `Token.fuse_append_colon` — a colon separates what is fused.
* `exists_settledTokens_withRemark`, `isRemarked_of_settledTokens` — the tokens of such a line.
-/

set_option autoImplicit false
namespace LineBasic

/-- A line with a remark after its statements. -/
def withRemark (s t : String) : String :=
  s ++ " : REM " ++ t

theorem toList_withRemark (s t : String) : (withRemark s t).toList =
    s.toList ++ ' ' :: ':' :: ' ' :: 'R' :: 'E' :: 'M' :: ' ' :: t.toList := by
  rw [withRemark, String.toList_append, String.toList_append, List.append_assoc]
  rfl

/-- Tokens with the same text and class. -/
structure Token.Alike (t u : Token) : Prop where
  text : t.text = u.text
  cls : t.cls = u.cls

theorem Token.Alike.symm {t u : Token} (h : t.Alike u) : u.Alike t :=
  ⟨h.text.symm, h.cls.symm⟩

theorem Token.Alike.flip {tokens tokens' : List Token}
    (h : List.Forall₂ Token.Alike tokens tokens') : List.Forall₂ Token.Alike tokens' tokens :=
  List.Forall₂.flip (h.imp fun _ _ ↦ Token.Alike.symm)

section
variable {source source' : Source} {column : Nat} {cs rest : List Char} {tokens : List Token}

/-! ## Scanning -/

theorem Scans.number {text : List Char} (htext : NumberText text rest.head?) :
    Scans source column text rest [⟨String.ofList text, .number, column⟩]
      (column + text.length) := by
  cases text with
  | nil => cases htext
  | cons c more =>
    have : Scans source column (c :: more) rest _ _ := .piece (nextPiece_number htext) rfl
    rwa [Nat.add_right_comm, Nat.add_assoc] at this

theorem Scans.name {text : List Char} (htext : IsLiteralText text)
    (hends : ∀ c ∈ rest.head?, endsLiteral c = true) :
    Scans source column text rest [⟨String.ofList text, .literal, column⟩]
      (column + text.length) := by
  cases text with
  | nil => exact htext.elim
  | cons c more =>
    have : Scans source column (c :: more) rest _ _ := .piece (nextPiece_literal htext hends) rfl
    rwa [Nat.add_right_comm, Nat.add_assoc] at this

theorem Scans.nil : Scans source column [] rest [] column := by
  rw [Scans, List.nil_append]
  cases LineBasic.scanFrom source column rest <;> rfl

/-- A text is scanned in the same way where a space follows it. -/
theorem Pieces.scans (h : Pieces column cs tokens) (hrest : ∀ c ∈ rest.head?, c = ' ') :
    Scans source column cs rest tokens (column + cs.length) := by
  -- What follows a piece is what followed it before, or, after the last piece, the space.
  have hhead (more : List Char) : (more ++ rest).head? = more.head? ∨
      ∀ c ∈ (more ++ rest).head?, c = ' ' := by
    cases more with
    | nil => exact .inr hrest
    | cons c more => exact .inl rfl
  induction h with
  | nil => exact .nil
  | @blank column c more tokens hc _ ih =>
    have hfirst : Scans source column [c] (more ++ rest) [] (column + 1) :=
      .piece (nextPiece_space hc) rfl
    have := hfirst.append ih
    rwa [Nat.add_right_comm, Nat.add_assoc] at this
  | @mark column c cls more tokens hc _ ih =>
    have hfirst : Scans source column [c] (more ++ rest) [⟨String.singleton c, cls, column⟩]
      (column + 1) := .piece hc.nextPiece rfl
    have := hfirst.append ih
    rwa [Nat.add_right_comm, Nat.add_assoc] at this
  | @quoted column body more tokens hbody _ ih =>
    have hfirst : Scans source column ('"' :: body ++ ['"']) (more ++ rest) _ _ := .quoted hbody
    have := hfirst.append ih
    simpa [Nat.add_assoc, Nat.add_comm, Nat.add_left_comm] using this
  | @number column text more tokens htext _ ih =>
    have hnumber : NumberText text (more ++ rest).head? := by
      rcases hhead more with hsame | hspace
      · rwa [hsame]
      · exact htext.of_space hspace
    have := (Scans.number hnumber).append ih
    rwa [Nat.add_assoc, ← List.length_append] at this
  | @literal column text more tokens htext hends _ ih =>
    have hname : ∀ c ∈ (more ++ rest).head?, endsLiteral c = true := by
      rcases hhead more with hsame | hspace
      · rwa [hsame]
      · intro c hc
        rw [hspace c hc]
        rfl
    have := (Scans.name htext hname).append ih
    rwa [Nat.add_assoc, ← List.length_append] at this

/-- From another column on, a text has the same tokens at other columns. -/
theorem Pieces.alike (h : Pieces column cs tokens) (column' : Nat) :
    ∃ tokens', Pieces column' cs tokens' ∧ List.Forall₂ Token.Alike tokens tokens' := by
  induction h generalizing column' with
  | nil => exact ⟨[], .nil, .nil⟩
  | blank hc _ ih =>
    obtain ⟨tokens', hpieces, halike⟩ := ih (column' + 1)
    exact ⟨tokens', .blank hc hpieces, halike⟩
  | mark hc _ ih =>
    obtain ⟨tokens', hpieces, halike⟩ := ih (column' + 1)
    exact ⟨_, .mark hc hpieces, .cons ⟨rfl, rfl⟩ halike⟩
  | quoted hbody _ ih =>
    obtain ⟨tokens', hpieces, halike⟩ := ih (column' + 1 + _)
    exact ⟨_, .quoted hbody hpieces, .cons ⟨rfl, rfl⟩ halike⟩
  | number htext _ ih =>
    obtain ⟨tokens', hpieces, halike⟩ := ih (column' + _)
    exact ⟨_, .number htext hpieces, .cons ⟨rfl, rfl⟩ halike⟩
  | literal htext hends _ ih =>
    obtain ⟨tokens', hpieces, halike⟩ := ih (column' + _)
    exact ⟨_, .literal htext hends hpieces, .cons ⟨rfl, rfl⟩ halike⟩

/-- What introduces the remark: a colon and the remark word. -/
theorem scans_remark : Scans source column [' ', ':', ' ', 'R', 'E', 'M', ' '] rest
    [⟨":", .operator, column + 1⟩, ⟨"REM", .literal, column + 3⟩] (column + 7) := by
  have hword : Scans source (column + 3) ['R', 'E', 'M'] (' ' :: rest) _ _ :=
    .name ⟨rfl, rfl⟩ fun c hc ↦ Option.some.inj hc ▸ rfl
  have hcolon : Scans source (column + 1) [':'] (' ' :: 'R' :: 'E' :: 'M' :: ' ' :: rest) _ _ :=
    .operator rfl
  exact .blank (hcolon.append (.blank (hword.append (.blank .nil))))

/-- A line with a remark is scanned into the tokens of the statements, a colon, the remark word,
and what the remark is scanned into at its place. -/
theorem scanFrom_withRemark {s : String} (h : Pieces 0 s.toList tokens) (t : String) :
    scanFrom source 0 (withRemark s t).toList =
      (scanFrom source (s.toList.length + 7) t.toList).map fun more ↦
        tokens ++ ⟨":", .operator, s.toList.length + 1⟩ ::
          ⟨"REM", .literal, s.toList.length + 3⟩ :: more := by
  have hstatements : Scans source 0 s.toList ([' ', ':', ' ', 'R', 'E', 'M', ' '] ++ t.toList)
      tokens _ := h.scans fun c hc ↦ (Option.some.inj hc).symm
  have hall := hstatements.append scans_remark
  rw [Scans, Nat.zero_add, List.append_assoc] at hall
  rw [toList_withRemark]
  refine hall.trans ?_
  simp only [List.append_assoc]
  rfl

/-! ## Settling -/

theorem Token.settle_column (t : Token) (column : Nat) :
    settle { t with column := column } = t.settle.map fun u ↦ { u with column := column } := by
  obtain ⟨text, cls, start⟩ := t
  cases cls with
  | number =>
    simp only [settle]
    split
    · cases Numeral.decimalOfBinary? text with
      | error mishap => rfl
      | ok decimal => cases decimal <;> rfl
    · rfl
  | literal =>
    simp only [settle]
    split
    · rfl
    · split <;> rfl
  | _ => rfl

theorem Token.Alike.settle {t u t' : Token} (h : t.Alike u) (ht : t.settle = .ok t') :
    ∃ u', u.settle = .ok u' ∧ t'.Alike u' := by
  have hu : u = { t with column := u.column } := by rw [h.text, h.cls]
  exact ⟨{ t' with column := u.column }, by rw [hu, settle_column, ht]; rfl, rfl, rfl⟩

theorem Token.Alike.mapM_settle {raw raw' settled : List Token}
    (h : List.Forall₂ Token.Alike raw raw') (hraw : raw.mapM Token.settle = .ok settled) :
    ∃ settled', raw'.mapM Token.settle = .ok settled' ∧
      List.Forall₂ Token.Alike settled settled' := by
  induction h generalizing settled with
  | nil =>
    cases hraw
    exact ⟨[], rfl, .nil⟩
  | cons ht _ ih =>
    rw [List.mapM_cons] at hraw
    obtain ⟨t', ht', hraw⟩ := bind_eq_ok.1 hraw
    obtain ⟨settled, hsettled, hraw⟩ := bind_eq_ok.1 hraw
    cases hraw
    obtain ⟨u', hu', hfirst⟩ := ht.settle ht'
    obtain ⟨settled', hsettled', hrest⟩ := ih hsettled
    exact ⟨u' :: settled', by rw [List.mapM_cons, hu', hsettled']; rfl, .cons hfirst hrest⟩

end

theorem Operator.not_mem_text (op : Operator) : ':' ∉ op.text.toList := by
  cases op <;> decide

namespace Token

theorem fused?_congr {group group' : List Token} (h : List.Forall₂ Alike group group') :
    fused? group = fused? group' := by
  have htexts : group.map text = group'.map text := by
    induction h with
    | nil => rfl
    | cons ht _ ih => rw [List.map_cons, List.map_cons, ht.text, ih]
  have hall : group.all (·.cls == .operator) = group'.all (·.cls == .operator) := by
    clear htexts
    induction h with
    | nil => rfl
    | cons ht _ ih => rw [List.all_cons, List.all_cons, ht.cls, ih]
  rw [fused?, fused?, htexts, hall]

theorem Alike.alone {t u : Token} (h : t.Alike u) : t.alone.Alike u.alone := by
  rw [Token.alone, Token.alone, h.text, h.cls]
  split
  · exact ⟨rfl, rfl⟩
  · exact h

theorem Alike.fuse {tokens tokens' : List Token} (h : List.Forall₂ Alike tokens tokens') :
    List.Forall₂ Alike (fuse tokens) (fuse tokens') := by
  fun_induction Token.fuse tokens generalizing tokens' with
  | case1 a b c rest text hfused ih =>
    obtain _ | ⟨ha, _ | ⟨hb, _ | ⟨hc, hrest⟩⟩⟩ := h
    rw [fused?_congr (.cons ha (.cons hb (.cons hc .nil)))] at hfused
    rw [Token.fuse, hfused]
    exact .cons ⟨rfl, ha.cls⟩ (ih hrest)
  | case2 a b c rest hthree text hfused ih =>
    obtain _ | ⟨ha, _ | ⟨hb, _ | ⟨hc, hrest⟩⟩⟩ := h
    rw [fused?_congr (.cons ha (.cons hb (.cons hc .nil)))] at hthree
    rw [fused?_congr (.cons ha (.cons hb .nil))] at hfused
    rw [Token.fuse, hthree, hfused]
    exact .cons ⟨rfl, ha.cls⟩ (ih (.cons hc hrest))
  | case3 a b c rest hthree htwo ih =>
    obtain _ | ⟨ha, _ | ⟨hb, _ | ⟨hc, hrest⟩⟩⟩ := h
    rw [fused?_congr (.cons ha (.cons hb (.cons hc .nil)))] at hthree
    rw [fused?_congr (.cons ha (.cons hb .nil))] at htwo
    rw [Token.fuse, hthree, htwo]
    exact .cons ha.alone (ih (.cons hb (.cons hc hrest)))
  | case4 a b text hfused =>
    obtain _ | ⟨ha, _ | ⟨hb, _ | _⟩⟩ := h
    rw [fused?_congr (.cons ha (.cons hb .nil))] at hfused
    rw [Token.fuse, hfused]
    exact .cons ⟨rfl, ha.cls⟩ .nil
  | case5 a b hfused =>
    obtain _ | ⟨ha, _ | ⟨hb, _ | _⟩⟩ := h
    rw [fused?_congr (.cons ha (.cons hb .nil))] at hfused
    rw [Token.fuse, hfused]
    exact .cons ha.alone (.cons hb.alone .nil)
  | case6 a =>
    obtain _ | ⟨ha, _ | _⟩ := h
    exact .cons ha.alone .nil
  | case7 =>
    cases h
    exact .nil

/-- A colon is part of no operator. -/
theorem fused?_colon {group : List Token} {t : Token} (ht : t ∈ group) (htext : t.text = ":") :
    fused? group = none := by
  rw [fused?]
  split
  · rw [Option.map_eq_none_iff, Option.eq_none_iff_forall_ne_some]
    intro op hop
    rw [Operator.ofText?] at hop
    have hjoin := List.find?_some hop
    simp only [beq_iff_eq] at hjoin
    refine op.not_mem_text ?_
    rw [hjoin, String.toList_join, List.flatMap_map, List.mem_flatMap]
    exact ⟨t, ht, by simp [htext]⟩
  · rfl

theorem fuse_colon {colon u : Token} (hcls : colon.cls = .operator) (htext : colon.text = ":")
    (hu : u.cls ≠ .operator) (more : List Token) :
    fuse (colon :: u :: more) = { colon with cls := .sequence } :: u :: fuse more := by
  have halone : colon.alone = { colon with cls := .sequence } := by
    rw [alone, if_pos (by simp [hcls, htext])]
  have htwo : fused? [colon, u] = none := fused?_colon (List.mem_cons_self ..) htext
  rw [← fuse_cons hu more]
  cases more with
  | nil => rw [fuse, htwo, halone, fuse, alone_eq_self fun h ↦ absurd h hu]
  | cons v more =>
    have hthree : fused? [colon, u, v] = none := fused?_colon (List.mem_cons_self ..) htext
    rw [fuse, hthree, htwo, halone]

/-- A colon separates what is fused before it from what is fused after it. -/
theorem fuse_append_colon {colon u : Token} (hcls : colon.cls = .operator)
    (htext : colon.text = ":") (hu : u.cls ≠ .operator) (before more : List Token) :
    fuse (before ++ colon :: u :: more) =
      fuse before ++ { colon with cls := .sequence } :: u :: fuse more := by
  have hbase := fuse_colon hcls htext hu more
  have hthird (a b : Token) : fused? [a, b, colon] = none := fused?_colon (by simp) htext
  have hsecond (a : Token) : fused? [a, colon] = none := fused?_colon (by simp) htext
  have hmiddle (a b : Token) : fused? [a, colon, b] = none := fused?_colon (by simp) htext
  fun_induction fuse before with
  | case1 a b c rest text hfused ih =>
    rw [List.cons_append, List.cons_append, List.cons_append, fuse, hfused, ih, List.cons_append]
  | case2 a b c rest hthree text hfused ih =>
    rw [List.cons_append, List.cons_append, List.cons_append, fuse, hthree, hfused,
      ← List.cons_append, ih]
    rfl
  | case3 a b c rest hthree htwo ih =>
    rw [List.cons_append, List.cons_append, List.cons_append, fuse, hthree, htwo,
      ← List.cons_append, ← List.cons_append, ih]
    rfl
  | case4 a b text hfused =>
    rw [List.cons_append, List.cons_append, List.nil_append, fuse, hthird, hfused, hbase]
    rfl
  | case5 a b hfused =>
    rw [List.cons_append, List.cons_append, List.nil_append, fuse, hthird, hfused, fuse, hmiddle,
      hsecond, hbase]
    rfl
  | case6 a =>
    rw [List.cons_append, List.nil_append, fuse, hmiddle, hsecond, hbase]
    rfl
  | case7 => rw [List.nil_append, hbase, List.nil_append]

theorem eq_nil_of_fuse {tokens : List Token} (h : fuse tokens = []) : tokens = [] := by
  fun_induction fuse tokens with
  | case7 => rfl
  | _ => cases h

end Token

theorem Token.isWord_iff {t : Token} {word : String} :
    t.isWord word = true ↔ t.cls = .literal ∧ Text.upper t.text = word := by
  rw [isWord, Bool.and_eq_true, beq_iff_eq, beq_iff_eq]

/-- How the tokens of a line with a remark are put together. -/
def IsRemarked (statements remark all : List Token) : Prop :=
  ∃ colon word remark', colon.cls = .sequence ∧ word.isWord "REM" = true ∧
    List.Forall₂ Token.Alike remark remark' ∧ all = statements ++ colon :: word :: remark'

section
variable {line : Option Int} {s t : String} {statements remark all : List Token}

theorem settledTokens_eq_ok_iff {settled : List Token} : settledTokens line s = .ok settled ↔
    ∃ raw single, Pieces 0 s.toList raw ∧ raw.mapM Token.settle = .ok single ∧
      settled = Token.fuse single := by
  constructor
  · intro h
    obtain ⟨raw, hraw, h⟩ := bind_eq_ok.1 h
    obtain ⟨single, hsingle, h⟩ := bind_eq_ok.1 (mapError_eq_ok.1 h)
    exact ⟨raw, single, pieces_of_scanFrom (mapError_eq_ok.1 hraw), hsingle, (pure_eq_ok.1 h).symm⟩
  · rintro ⟨raw, single, hraw, hsingle, rfl⟩
    refine bind_eq_ok.2 ⟨raw, mapError_eq_ok.2 (hraw.scanFrom _), mapError_eq_ok.2 ?_⟩
    exact bind_eq_ok.2 ⟨single, hsingle, rfl⟩

/-- The tokens that introduce a remark are settled by themselves. -/
theorem mapM_settle_withRemark (n : Nat) {raw more single single' : List Token}
    (hsingle : raw.mapM Token.settle = .ok single) :
    (raw ++ ⟨":", .operator, n + 1⟩ :: ⟨"REM", .literal, n + 3⟩ :: more).mapM Token.settle =
      .ok single' ↔ ∃ rest, more.mapM Token.settle = .ok rest ∧
        single' = single ++ ⟨":", .operator, n + 1⟩ :: ⟨"REM", .literal, n + 3⟩ :: rest := by
  have hcolon : Token.settle ⟨":", .operator, n + 1⟩ = .ok ⟨":", .operator, n + 1⟩ := rfl
  have hword : Token.settle ⟨"REM", .literal, n + 3⟩ = .ok ⟨"REM", .literal, n + 3⟩ := by
    have hupper : Text.upper "REM" = "REM" := rfl
    have hoperator : Operator.ofText? "REM" = none := rfl
    simp [Token.settle, hupper, hoperator]
    rfl
  rw [List.mapM_append, hsingle, List.mapM_cons, List.mapM_cons, hcolon, hword]
  constructor
  · intro h
    cases hmore : more.mapM Token.settle with
    | error mishap =>
      rw [hmore] at h
      cases h
    | ok rest =>
      rw [hmore] at h
      cases h
      exact ⟨rest, rfl, rfl⟩
  · rintro ⟨rest, hrest, rfl⟩
    rw [hrest]
    rfl

theorem pieces_withRemark_iff {raw raw' : List Token} (h : Pieces 0 s.toList raw) :
    Pieces 0 (withRemark s t).toList raw' ↔ ∃ more, Pieces (s.toList.length + 7) t.toList more ∧
      raw' = raw ++ ⟨":", .operator, s.toList.length + 1⟩ ::
        ⟨"REM", .literal, s.toList.length + 3⟩ :: more := by
  have hscan : Pieces 0 (withRemark s t).toList raw' ↔
      scanFrom ⟨none, ""⟩ 0 (withRemark s t).toList = .ok raw' := pieces_iff
  rw [hscan, scanFrom_withRemark h]
  constructor
  · intro heq
    cases hmore : scanFrom ⟨none, ""⟩ (s.toList.length + 7) t.toList with
    | error f =>
      rw [hmore] at heq
      cases heq
    | ok more =>
      rw [hmore] at heq
      cases heq
      exact ⟨more, pieces_of_scanFrom hmore, rfl⟩
  · rintro ⟨more, hmore, rfl⟩
    rw [hmore.scanFrom]
    rfl

/-- The tokens that a line with a remark is settled to, by those that the remark is settled to at
its place. -/
theorem settledTokens_withRemark_iff (h : settledTokens line s = .ok statements) :
    settledTokens line (withRemark s t) = .ok all ↔ ∃ more rest,
      Pieces (s.toList.length + 7) t.toList more ∧ more.mapM Token.settle = .ok rest ∧
        all = statements ++ ⟨":", .sequence, s.toList.length + 1⟩ ::
          ⟨"REM", .literal, s.toList.length + 3⟩ :: Token.fuse rest := by
  obtain ⟨raw, single, hraw, hsingle, rfl⟩ := settledTokens_eq_ok_iff.1 h
  have hfuse (rest : List Token) :
      Token.fuse (single ++ ⟨":", .operator, s.toList.length + 1⟩ ::
        ⟨"REM", .literal, s.toList.length + 3⟩ :: rest) =
      Token.fuse single ++ ⟨":", .sequence, s.toList.length + 1⟩ ::
        ⟨"REM", .literal, s.toList.length + 3⟩ :: Token.fuse rest :=
    Token.fuse_append_colon rfl rfl (by simp) single rest
  rw [settledTokens_eq_ok_iff]
  constructor
  · rintro ⟨raw', single', hraw', hsingle', rfl⟩
    obtain ⟨more, hmore, rfl⟩ := (pieces_withRemark_iff hraw).1 hraw'
    obtain ⟨rest, hrest, rfl⟩ := (mapM_settle_withRemark _ hsingle).1 hsingle'
    exact ⟨more, rest, hmore, hrest, hfuse rest⟩
  · rintro ⟨more, rest, hmore, hrest, rfl⟩
    exact ⟨_, _, (pieces_withRemark_iff hraw).2 ⟨more, hmore, rfl⟩,
      (mapM_settle_withRemark _ hsingle).2 ⟨rest, hrest, rfl⟩, (hfuse rest).symm⟩

theorem isWord_remark (n : Nat) : Token.isWord ⟨"REM", .literal, n⟩ "REM" = true :=
  Token.isWord_iff.2 ⟨rfl, show Text.upper "REM" = "REM" from rfl⟩

/-- A line with a remark has tokens if the line and the remark have. -/
theorem exists_settledTokens_withRemark (h : settledTokens line s = .ok statements)
    (ht : settledTokens line t = .ok remark) :
    ∃ all, settledTokens line (withRemark s t) = .ok all ∧ IsRemarked statements remark all := by
  obtain ⟨raw, single, hraw, hsingle, rfl⟩ := settledTokens_eq_ok_iff.1 ht
  obtain ⟨more, hmore, halike⟩ := hraw.alike (s.toList.length + 7)
  obtain ⟨rest, hrest, halike⟩ := Token.Alike.mapM_settle halike hsingle
  exact ⟨_, (settledTokens_withRemark_iff h).2 ⟨more, rest, hmore, hrest, rfl⟩, _, _, _, rfl,
    isWord_remark _, Token.Alike.fuse halike, rfl⟩

/-- The tokens of a line with a remark are those of the line and of the remark. -/
theorem isRemarked_of_settledTokens (h : settledTokens line s = .ok statements)
    (hall : settledTokens line (withRemark s t) = .ok all) :
    ∃ remark, settledTokens line t = .ok remark ∧ IsRemarked statements remark all := by
  obtain ⟨more, rest, hmore, hrest, rfl⟩ := (settledTokens_withRemark_iff h).1 hall
  obtain ⟨raw, hraw, halike⟩ := hmore.alike 0
  obtain ⟨single, hsingle, halike⟩ := Token.Alike.mapM_settle halike hrest
  refine ⟨Token.fuse single, settledTokens_eq_ok_iff.2 ⟨raw, single, hraw, hsingle, rfl⟩, _, _, _,
    rfl, isWord_remark _, Token.Alike.fuse (Token.Alike.flip halike), rfl⟩

end

end LineBasic
