import LineBasic.Proofs.Text.Upper
import LineBasic.Proofs.Token.Rejoining
import LineBasic.Proofs.Token.Remarks

/-!
# Settling the tokens of a line is stable

Settling does not throw tokens away, and it does not have to be done twice.  Each settled token
stands for one token of the line, or for two or three operator characters side by side; and where
operators stand side by side afterwards, no two or three of them make up another one.

Operators are fused from the left, and three tokens are tried before two.  That the first choice
never leaves neighbours behind which could still be fused has one reason: what the neighbours would
make up is also made up by all the tokens that they stand for.  Those are single characters, so
there are two or three of them as well, and the first token would have been fused with more of them.

* `Token.StandsFor` — which tokens of the line a settled token stands for.
* `Token.IsUnfusible` — tokens of which no neighbours make up an operator.
* `Token.Fuses` — how tokens are fused, group by group.
* `settleAll_isStable` — the result.
-/

set_option autoImplicit false
namespace LineBasic

/-! ## Operators -/

theorem IsLiteralText.not_isOperatorChar {text : List Char} (h : IsLiteralText text) :
    ∀ c ∈ text, isOperatorChar c = false := by
  cases text with
  | nil => exact h.elim
  | cons c cs =>
    intro d hd
    have hends := Bool.eq_false_iff.2 (List.any_eq_false.1 h.2 d hd)
    exact (Bool.or_eq_false_iff.1 hends).2

namespace Operator

theorem text_of_ofText? {s : String} {op : Operator} (h : ofText? s = some op) : op.text = s := by
  simpa using List.find?_some h

theorem head_text (op : Operator) : op.text.toList.head?.all (!·.isDigit) = true := by
  cases op <;> rfl

/-- The operators that are written as words. -/
def words : List Operator :=
  all.filter fun op ↦ op.text.toList.all (!isOperatorChar ·)

/-- No word starts with one operator and goes on with another. -/
theorem not_isPrefixOf_words : (words.all fun a ↦ words.all fun b ↦ all.all fun op ↦
    !(a.text.toList ++ b.text.toList).isPrefixOf op.text.toList) = true := by decide +kernel

theorem mem_words {op : Operator} (h : IsLiteralText op.text.toList) : op ∈ words := by
  refine List.mem_filter.2 ⟨op.mem_all, List.all_eq_true.2 fun c hc ↦ ?_⟩
  simp [h.not_isOperatorChar c hc]

end Operator

namespace Token

/-! ## What settled tokens stand for -/

/-- A settled token stands for a group of tokens: for one that is settled by itself, or for two or
three operator tokens whose texts make up an operator. -/
structure StandsFor (group : List Token) (t : Token) : Prop where
  length_pos : 1 ≤ group.length
  length_le : group.length ≤ 3
  column : ∀ first ∈ group.head?, t.column = first.column
  single : ∀ raw, group = [raw] → ∃ u, raw.settle = .ok u ∧ t = u.alone
  fused : 2 ≤ group.length → (∀ u ∈ group, u.cls = .operator) ∧ t.cls = .operator ∧
    t.text = String.join (group.map text) ∧ ∃ op : Operator, t.text = op.text

/-- No two or three neighbouring operator tokens make up an operator. -/
def IsUnfusible (tokens : List Token) : Prop :=
  ∀ group, group <:+: tokens → 2 ≤ group.length → group.length ≤ 3 →
    (∀ t ∈ group, t.cls = .operator) → ∀ op : Operator, String.join (group.map text) ≠ op.text

theorem fused?_eq_some_iff {group : List Token} {s : String} : fused? group = some s ↔
    (∀ t ∈ group, t.cls = .operator) ∧ String.join (group.map text) = s ∧
      ∃ op : Operator, s = op.text := by
  constructor
  · intro h
    rw [fused?] at h
    split at h
    · obtain ⟨op, hop, rfl⟩ := Option.map_eq_some_iff.1 h
      have hcls : ∀ t ∈ group, t.cls = .operator :=
        fun t ht ↦ beq_iff_eq.1 (List.all_eq_true.1 ‹_› t ht)
      exact ⟨hcls, (Operator.text_of_ofText? hop).symm, op, rfl⟩
    · cases h
  · rintro ⟨hcls, htext, op, rfl⟩
    exact fused?_of_text hcls htext

theorem IsUnfusible.fused? {tokens group : List Token} (h : IsUnfusible tokens)
    (hgroup : group <:+: tokens) (htwo : 2 ≤ group.length) (hthree : group.length ≤ 3) :
    fused? group = none := by
  by_contra hfused
  obtain ⟨s, hs⟩ := Option.ne_none_iff_exists'.1 hfused
  obtain ⟨hcls, htext, op, rfl⟩ := fused?_eq_some_iff.1 hs
  exact h group hgroup htwo hthree hcls op htext

/-! ## Fusing, group by group -/

/-- A group of tokens, and the token that it is fused to. -/
inductive Fused : List Token → Token → Prop
  | alone (t : Token) : Fused [t] t.alone
  | group {t : Token} {ts : List Token} {text : String} (hlength : ts.length = 1 ∨ ts.length = 2)
      (h : fused? (t :: ts) = some text) : Fused (t :: ts) { t with text }

/-- Groups of tokens, and the tokens that they are fused to.  From the left, each group is as long
as it can be. -/
inductive Fuses : List (List Token) → List Token → Prop
  | nil : Fuses [] []
  | cons {group : List Token} {groups : List (List Token)} {t : Token} {ts : List Token}
      (hgroup : Fused group t)
      (hlongest : ∀ longer, longer <+: group ++ groups.flatten → group.length < longer.length →
        longer.length ≤ 3 → fused? longer = none)
      (hgroups : Fuses groups ts) : Fuses (group :: groups) (t :: ts)

/-- A group that tokens start with makes up no operator if the first two or three do not. -/
theorem fused?_of_isPrefix {tokens longer : List Token} (hlonger : longer <+: tokens)
    (htwo : 2 ≤ longer.length) (hthree : longer.length ≤ 3)
    (hpair : longer.length = 2 → fused? (tokens.take 2) = none)
    (htriple : longer.length = 3 → fused? (tokens.take 3) = none) : fused? longer = none := by
  rw [List.prefix_iff_eq_take] at hlonger
  obtain hlength | hlength : longer.length = 2 ∨ longer.length = 3 := by omega
  · rw [hlonger, hlength]
    exact hpair hlength
  · rw [hlonger, hlength]
    exact htriple hlength

theorem exists_fuses (tokens : List Token) :
    ∃ groups, groups.flatten = tokens ∧ Fuses groups (fuse tokens) := by
  fun_induction fuse tokens with
  | case1 a b c rest text hthree ih =>
    obtain ⟨groups, rfl, ih⟩ := ih
    refine ⟨[a, b, c] :: groups, rfl, .cons (.group (.inr rfl) hthree) ?_ ih⟩
    intro longer _ hlonger hlength
    exact absurd hlength (Nat.not_le_of_lt hlonger)
  | case2 a b c rest hthree text htwo ih =>
    obtain ⟨groups, hgroups, ih⟩ := ih
    refine ⟨[a, b] :: groups, by simp [hgroups], .cons (.group (.inl rfl) htwo) ?_ ih⟩
    rw [hgroups]
    intro longer hinitial (hlonger : 2 < longer.length) hlength
    exact fused?_of_isPrefix hinitial (by omega) hlength (by omega) fun _ ↦ hthree
  | case3 a b c rest hthree htwo ih =>
    obtain ⟨groups, hgroups, ih⟩ := ih
    refine ⟨[a] :: groups, by simp [hgroups], .cons (.alone a) ?_ ih⟩
    rw [hgroups]
    intro longer hinitial hlonger hlength
    exact fused?_of_isPrefix hinitial hlonger hlength (fun _ ↦ htwo) fun _ ↦ hthree
  | case4 a b text htwo =>
    refine ⟨[[a, b]], rfl, .cons (.group (.inl rfl) htwo) ?_ .nil⟩
    intro longer hinitial hlonger
    exact absurd hinitial.length_le (Nat.not_le_of_lt hlonger)
  | case5 a b htwo =>
    refine ⟨[[a], [b]], rfl, .cons (.alone a) ?_ (.cons (.alone b) ?_ .nil)⟩
    · intro longer hinitial hlonger hlength
      have hshort : longer.length ≤ 2 := hinitial.length_le
      exact fused?_of_isPrefix hinitial hlonger hlength (fun _ ↦ htwo) (by omega)
    · intro longer hinitial hlonger
      exact absurd hinitial.length_le (Nat.not_le_of_lt hlonger)
  | case6 a =>
    refine ⟨[[a]], rfl, .cons (.alone a) ?_ .nil⟩
    intro longer hinitial hlonger
    exact absurd hinitial.length_le (Nat.not_le_of_lt hlonger)
  | case7 => exact ⟨[], rfl, .nil⟩

theorem Fuses.forall₂ {groups : List (List Token)} {ts : List Token} (h : Fuses groups ts) :
    List.Forall₂ Fused groups ts := by
  induction h with
  | nil => exact .nil
  | cons hgroup _ _ ih => exact .cons hgroup ih

theorem Fused.length_pos {group : List Token} {t : Token} (h : Fused group t) :
    0 < group.length := by
  cases h <;> exact Nat.succ_pos _

theorem length_flatten_pos {groups : List (List Token)} {ts : List Token}
    (h : List.Forall₂ Fused groups ts) (hne : ts ≠ []) : 0 < groups.flatten.length := by
  cases h with
  | nil => exact absurd rfl hne
  | cons hgroup _ =>
    rw [List.flatten_cons, List.length_append]
    exact Nat.add_pos_left hgroup.length_pos _

theorem cls_alone {t : Token} (h : t.alone.cls = .operator) : t.alone = t := by
  refine alone_eq_self fun hcls htext ↦ ?_
  rw [alone, if_pos (by simp [hcls, htext])] at h
  cases h

/-- An operator token has the texts of the operator tokens that it was fused from. -/
theorem Fused.of_operator {group : List Token} {t : Token} (h : Fused group t)
    (hcls : t.cls = .operator) :
    (∀ u ∈ group, u.cls = .operator) ∧ t.text = String.join (group.map text) := by
  cases h with
  | alone u =>
    have halone := cls_alone hcls
    rw [halone] at hcls ⊢
    simpa using hcls
  | group _ hfused =>
    obtain ⟨hall, htext, -⟩ := fused?_eq_some_iff.1 hfused
    exact ⟨hall, htext.symm⟩

/-- What tokens make up, the tokens make up that they were fused from. -/
theorem fused?_flatten {groups : List (List Token)} {ts : List Token} {s : String}
    (h : List.Forall₂ Fused groups ts) (hs : fused? ts = some s) :
    fused? groups.flatten = some s := by
  obtain ⟨hcls, hjoin, hop⟩ := fused?_eq_some_iff.1 hs
  have hflat : (∀ u ∈ groups.flatten, u.cls = .operator) ∧
      String.join (groups.flatten.map text) = String.join (ts.map text) := by
    clear hs hjoin
    induction h with
    | nil => exact ⟨List.forall_mem_nil _, rfl⟩
    | cons hgroup _ ih =>
      obtain ⟨ht, hts⟩ := List.forall_mem_cons.1 hcls
      obtain ⟨hhere, htext⟩ := hgroup.of_operator ht
      obtain ⟨hrest, hjoin⟩ := ih hts
      rw [List.flatten_cons, List.map_append, String.join_append, List.map_cons, String.join_cons,
        htext, hjoin]
      exact ⟨List.forall_mem_append.2 ⟨hhere, hrest⟩, rfl⟩
  exact fused?_eq_some_iff.2 ⟨hflat.1, hflat.2.trans hjoin, hop⟩

/-! ## Single operator characters -/

/-- An operator token of a single character. -/
def IsGlyph (t : Token) : Prop :=
  t.cls = .operator ∧ ∃ c, t.text.toList = [c] ∧ isOperatorChar c = true

/-- An operator token that is written as a word. -/
def IsOperatorWord (t : Token) : Prop :=
  t.cls = .operator ∧ ∃ op : Operator, t.text = op.text ∧ IsLiteralText op.text.toList

theorem IsOperatorWord.not_isOperatorChar {t : Token} (h : t.IsOperatorWord) :
    ∀ c ∈ t.text.toList, isOperatorChar c = false := by
  obtain ⟨-, op, htext, hliteral⟩ := h
  rw [htext]
  exact hliteral.not_isOperatorChar

theorem IsOperatorWord.ne_nil {t : Token} (h : t.IsOperatorWord) : t.text.toList ≠ [] := by
  obtain ⟨-, op, htext, hliteral⟩ := h
  rw [htext]
  exact hliteral.ne_nil

theorem IsGlyph.not_isOperatorWord {t : Token} (h : t.IsGlyph) : ¬ t.IsOperatorWord := by
  obtain ⟨-, c, htext, hc⟩ := h
  intro hword
  rw [hword.not_isOperatorChar c (by simp [htext])] at hc
  cases hc

/-- Single characters have as many characters as there are tokens. -/
theorem length_join_of_isGlyph {group : List Token} (h : ∀ t ∈ group, t.IsGlyph) :
    (String.join (group.map text)).toList.length = group.length := by
  rw [String.toList_join, List.flatMap_map]
  induction group with
  | nil => rfl
  | cons t group ih =>
    obtain ⟨⟨-, c, htext, -⟩, hgroup⟩ := List.forall_mem_cons.1 h
    rw [List.flatMap_cons, List.length_append, ih hgroup, htext, List.length_cons, Nat.add_comm]
    rfl

/-- What single characters and words make up together, they do as single characters. -/
theorem isGlyph_of_fused? {group : List Token} {s : String}
    (hgroup : ∀ t ∈ group, t.cls = .operator → t.IsGlyph ∨ t.IsOperatorWord)
    (hlength : 2 ≤ group.length) (h : fused? group = some s) :
    group.length ≤ 3 ∧ ∀ t ∈ group, t.IsGlyph := by
  obtain ⟨hcls, hjoin, op, rfl⟩ := fused?_eq_some_iff.1 h
  have hmem {t : Token} (ht : t ∈ group) {c : Char} (hc : c ∈ t.text.toList) :
      c ∈ op.text.toList := by
    rw [← hjoin, String.toList_join, List.flatMap_map]
    exact List.mem_flatMap.2 ⟨t, ht, hc⟩
  have hsymbol (hchars : ∀ c ∈ op.text.toList, isOperatorChar c = true)
      (hthree : op.text.toList.length ≤ 3) : group.length ≤ 3 ∧ ∀ t ∈ group, t.IsGlyph := by
    have hall : ∀ t ∈ group, t.IsGlyph := by
      intro t ht
      refine (hgroup t ht (hcls t ht)).resolve_right fun hword ↦ ?_
      obtain ⟨c, hc⟩ := List.exists_mem_of_ne_nil _ hword.ne_nil
      exact absurd (hchars c (hmem ht hc)) (by simp [hword.not_isOperatorChar c hc])
    rw [← hjoin, length_join_of_isGlyph hall] at hthree
    exact ⟨hthree, hall⟩
  rcases op.text_cases with ⟨a, hchars, ha, -⟩ | ⟨a, b, hchars, ha, hb⟩ |
    ⟨a, b, c, hchars, ha, hb, hc⟩ | ⟨hliteral, -⟩
  · exact hsymbol (by simp [hchars, ha]) (by simp [hchars])
  · exact hsymbol (by simp [hchars, ha, hb]) (by simp [hchars])
  · exact hsymbol (by simp [hchars, ha, hb, hc]) (by simp [hchars])
  · have hall : ∀ t ∈ group, t.IsOperatorWord := by
      intro t ht
      refine (hgroup t ht (hcls t ht)).resolve_left ?_
      rintro ⟨-, c, htext, hc⟩
      rw [hliteral.not_isOperatorChar c (hmem ht (by simp [htext]))] at hc
      cases hc
    match group, hlength with
    | t :: u :: rest, _ =>
      obtain ⟨-, a, ha, haliteral⟩ := hall t (by simp)
      obtain ⟨-, b, hb, hbliteral⟩ := hall u (by simp)
      have hinitial : (a.text.toList ++ b.text.toList).isPrefixOf op.text.toList = true := by
        rw [List.isPrefixOf_iff_prefix, ← hjoin, String.toList_join, List.flatMap_map,
          List.flatMap_cons, List.flatMap_cons, ha, hb, ← List.append_assoc]
        exact List.prefix_append ..
      have hnone := List.all_eq_true.1 (List.all_eq_true.1 (List.all_eq_true.1
        Operator.not_isPrefixOf_words a (Operator.mem_words haliteral)) b
        (Operator.mem_words hbliteral)) op op.mem_all
      rw [hinitial] at hnone
      cases hnone

/-! ## Nothing is left to fuse -/

/-- Whether an operator among the tokens is a single character or a word. -/
def AreSettled (tokens : List Token) : Prop :=
  ∀ t ∈ tokens, t.cls = .operator → t.IsGlyph ∨ t.IsOperatorWord

theorem Fuses.isUnfusible {groups : List (List Token)} {ts : List Token} (h : Fuses groups ts)
    (hsettled : AreSettled groups.flatten) : IsUnfusible ts := by
  induction h with
  | nil =>
    intro group hinfix hlength
    rw [List.infix_nil.1 hinfix] at hlength
    cases hlength
  | @cons first groups t ts hfirst hlongest hgroups ih =>
    have hrest : IsUnfusible ts := ih fun u hu ↦ hsettled u (List.mem_append_right _ hu)
    intro group hinfix htwo hthree hcls op hjoin
    obtain hinitial | hinfix := List.infix_cons_iff.1 hinfix
    · obtain ⟨next, rfl, more, rfl⟩ : ∃ next, group = t :: next ∧ next <+: ts := by
        cases group with
        | nil => cases htwo
        | cons u next =>
          obtain ⟨rfl, hnext⟩ := List.cons_prefix_cons.1 hinitial
          exact ⟨next, rfl, hnext⟩
      -- The tokens stand for the first group and more, which is not longer than an operator.
      have hnext := List.forall₂_take_append groups next more hgroups.forall₂
      have hfused := fused?_flatten (.cons hfirst hnext)
        (fused?_eq_some_iff.2 ⟨hcls, hjoin, op, rfl⟩)
      have hinitial : (first :: groups.take next.length).flatten <+: first ++ groups.flatten := by
        rw [List.flatten_cons, List.prefix_append_right_inj]
        exact (List.take_prefix _ groups).flatten
      have hlonger : first.length < (first :: groups.take next.length).flatten.length := by
        rw [List.flatten_cons, List.length_append]
        refine Nat.lt_add_of_pos_right (length_flatten_pos hnext ?_)
        rintro rfl
        exact absurd htwo (by simp)
      have hfew := isGlyph_of_fused? (fun u hu ↦ hsettled u (hinitial.subset hu))
        (by have := hfirst.length_pos; omega) hfused
      rw [hlongest _ hinitial hlonger hfew.1] at hfused
      cases hfused
    · exact hrest group hinfix htwo hthree hcls op hjoin

theorem Fuses.eq_map_alone {groups : List (List Token)} {ts : List Token} (h : Fuses groups ts)
    (hunfusible : IsUnfusible groups.flatten) : ts = groups.flatten.map alone := by
  induction h with
  | nil => rfl
  | @cons group groups t ts hgroup _ _ ih =>
    have hts : ts = groups.flatten.map alone := ih fun window hwindow ↦
      hunfusible window (hwindow.trans (List.suffix_append group groups.flatten).isInfix)
    cases hgroup with
    | alone t => rw [hts]; rfl
    | @group t us text hlength hfused =>
      have hinfix : t :: us <:+: (t :: us) ++ groups.flatten := (List.prefix_append ..).isInfix
      rw [hunfusible.fused? hinfix (by simp; omega) (by simp; omega)] at hfused
      cases hfused

/-- Where nothing is left to fuse, fusing changes nothing. -/
theorem fuse_eq_self {ts : List Token} (h : IsUnfusible ts) (halone : ∀ t ∈ ts, t.alone = t) :
    fuse ts = ts := by
  obtain ⟨groups, rfl, hfuses⟩ := exists_fuses ts
  rw [hfuses.eq_map_alone h]
  rw [List.map_congr_left halone, List.map_id']

/-! ## Settling single tokens -/

theorem settle_alone {t : Token} (h : t.settle = .ok t) : t.alone.settle = .ok t.alone := by
  rw [alone]
  split
  · rfl
  · exact h

theorem alone_alone (t : Token) : t.alone.alone = t.alone := by
  by_cases hcls : t.alone.cls = .operator
  · rw [cls_alone hcls]
    exact cls_alone hcls
  · exact alone_eq_self fun h ↦ absurd h hcls

theorem Fused.alone_eq {group : List Token} {t : Token} (h : Fused group t) : t.alone = t := by
  cases h with
  | alone u => exact alone_alone u
  | group _ hfused =>
    obtain ⟨-, -, op, rfl⟩ := fused?_eq_some_iff.1 hfused
    refine alone_eq_self fun _ htext ↦ op.not_mem_text ?_
    change op.text = ":" at htext
    rw [htext]
    exact List.mem_singleton_self _

end Token

/-! ## Settling single tokens -/

namespace Text

/-- No character is turned into an operator character by upper-casing. -/
theorem not_raised_operatorChars : (raised.all fun a ↦
    "!~#<=>*+-/^:$.@\\%|`".toList.all fun c ↦ Nat.blt c.toNat a.first || Nat.blt a.last c.toNat) =
      true := by decide +kernel

theorem eq_of_mem_upperChar {c d : Char} (hd : d ∈ upperChar c)
    (hoperator : isOperatorChar d = true) : d = c := by
  obtain hself | rfl | ⟨a, ha, hin⟩ := mem_upperChar hd
  · rw [hself] at hd
    exact List.mem_singleton.1 hd
  · exact absurd hoperator (by decide)
  · have hapart := List.all_eq_true.1 (List.all_eq_true.1 not_raised_operatorChars a ha) d
      (List.contains_iff_mem.1 hoperator)
    have := hin.first_le
    have := hin.le_last
    simp only [Bool.or_eq_true, Nat.blt_eq] at hapart
    omega

end Text

/-- The upper case of a literal is no operator of single characters. -/
theorem IsLiteralText.upper {text : List Char} (h : IsLiteralText text) {op : Operator}
    (hop : Text.upper (String.ofList text) = op.text) : IsLiteralText op.text.toList := by
  have hnone {c : Char} (hc : c ∈ op.text.toList) : isOperatorChar c ≠ true := by
    intro hoperator
    rw [← hop, Text.upper, String.toList_ofList, String.toList_ofList] at hc
    obtain ⟨d, hd, hc⟩ := List.mem_flatMap.1 hc
    rw [Text.eq_of_mem_upperChar hc hoperator, h.not_isOperatorChar d hd] at hoperator
    cases hoperator
  rcases op.text_cases with ⟨a, hchars, ha, -⟩ | ⟨a, b, hchars, ha, -⟩ | ⟨a, b, c, hchars, ha, -⟩ |
    ⟨hliteral, -⟩
  · exact absurd ha (hnone (by simp [hchars]))
  · exact absurd ha (hnone (by simp [hchars]))
  · exact absurd ha (hnone (by simp [hchars]))
  · exact hliteral

/-- The upper case of a text that starts with a digit starts with that digit. -/
theorem Text.exists_upper_of_isDigit {c : Char} (hc : c.isDigit = true) (cs : List Char) :
    ∃ more, upper (String.ofList (c :: cs)) = String.ofList (c :: more) := by
  have hbounds := toNat_of_isDigit hc
  have hself : upperChar c = [c] := by
    rw [upperChar, if_pos (by omega)]
    obtain hself | ⟨hlower, -⟩ := toUpper_ascii (c := c) (by omega)
    · rw [hself]
    · omega
  refine ⟨cs.flatMap upperChar, ?_⟩
  rw [upper, String.toList_ofList, List.flatMap_cons, hself]
  rfl

namespace Token

/-- What a token of a line is settled to by itself. -/
structure IsSettledFrom (raw t : Token) : Prop where
  settle : raw.settle = .ok t
  again : t.settle = .ok t
  column : t.column = raw.column
  operator : t.cls = .operator → t = raw ∧ t.IsGlyph ∨ t.IsOperatorWord

section
variable {raw t : Token}

theorem IsSettledFrom.of_cls (cls : TokenClass) (hne : cls ≠ .operator) (hcls : t.cls = cls)
    (hsettle : raw.settle = .ok t) (hagain : t.settle = .ok t) (hcolumn : t.column = raw.column) :
    IsSettledFrom raw t :=
  ⟨hsettle, hagain, hcolumn, fun h ↦ absurd (hcls.symm.trans h) hne⟩

/-- A number token that is no numeral is a literal, and stays one. -/
theorem settle_literal_of_isDigit {c : Char} (hc : c.isDigit = true) (cs : List Char)
    (column : Nat) :
    settle ⟨String.ofList (c :: cs), .literal, column⟩ =
      .ok ⟨String.ofList (c :: cs), .literal, column⟩ := by
  obtain ⟨more, hupper⟩ := Text.exists_upper_of_isDigit hc cs
  have hne {s : String} (hs : s.toList.head?.all (!·.isDigit) = true) :
      String.ofList (c :: more) ≠ s := by
    rintro rfl
    simp [hc] at hs
  have hoperator : Operator.ofText? (String.ofList (c :: more)) = none := by
    cases hop : Operator.ofText? (String.ofList (c :: more)) with
    | none => rfl
    | some op => exact absurd (Operator.text_of_ofText? hop).symm (hne op.head_text)
  have htrue : String.ofList (c :: more) ≠ "TRUE" := hne rfl
  have hfalse : String.ofList (c :: more) ≠ "FALSE" := hne rfl
  rw [Token.settle]
  simp only [hupper, hoperator, Option.isSome_none, Bool.false_eq_true, if_false, Bool.or_eq_true,
    beq_iff_eq, htrue, hfalse, or_self]
  rfl

theorem NumberText.exists_digit {text : List Char} {next : Option Char} (h : NumberText text next) :
    ∃ c cs, text = c :: cs ∧ c.isDigit = true := by
  cases h with
  | whole hc => exact ⟨_, _, rfl, hc⟩
  | parted hc => exact ⟨_, _, rfl, hc⟩

theorem settle_number {text : List Char} {column : Nat} (htext : NumberText text none)
    (h : settle ⟨String.ofList text, .number, column⟩ = .ok t) :
    IsSettledFrom ⟨String.ofList text, .number, column⟩ t := by
  have hsettle := h
  rw [Token.settle] at h
  simp only at h
  split at h
  · obtain ⟨decimal?, hdecimal, h⟩ := bind_eq_ok.1 h
    obtain ⟨n, rfl⟩ | ⟨rfl, -⟩ := Numeral.eq_of_decimalOfBinary? hdecimal
    · cases h
      refine .of_cls .number (by decide) rfl hsettle ?_ rfl
      rw [Token.settle, Numeral.decimalOfBinary?_toString]
      simp only [Numeral.isNumeral_toString]
      rfl
    · cases h
      exact .of_cls .number (by decide) rfl hsettle hsettle rfl
  · cases h
    obtain ⟨c, cs, rfl, hc⟩ := NumberText.exists_digit htext
    exact .of_cls .literal (by decide) rfl hsettle (settle_literal_of_isDigit hc cs column) rfl

theorem settle_literal {text : List Char} {column : Nat} (htext : IsLiteralText text)
    (h : settle ⟨String.ofList text, .literal, column⟩ = .ok t) :
    IsSettledFrom ⟨String.ofList text, .literal, column⟩ t := by
  have hsettle := h
  rw [Token.settle] at h
  simp only at h
  split at h
  · rename_i hop
    obtain ⟨op, hop⟩ := Option.isSome_iff_exists.1 hop
    cases h
    exact ⟨hsettle, rfl, rfl, fun _ ↦ .inr ⟨rfl, op, (Operator.text_of_ofText? hop).symm,
      htext.upper (Operator.text_of_ofText? hop).symm⟩⟩
  · split at h
    · cases h
      exact .of_cls .boolean (by decide) rfl hsettle rfl rfl
    · cases h
      exact .of_cls .literal (by decide) rfl hsettle hsettle rfl

theorem IsScannable.settle (hraw : raw.IsScannable) (h : raw.settle = .ok t) :
    IsSettledFrom raw t := by
  cases hraw with
  | @mark column c cls hc =>
    cases hc with
    | bracket hc =>
      cases h
      exact .of_cls .paren (by decide) rfl rfl rfl rfl
    | separator hc =>
      cases h
      exact .of_cls .separator (by decide) rfl rfl rfl rfl
    | operator hc =>
      cases h
      exact ⟨rfl, rfl, rfl, fun _ ↦ .inl ⟨rfl, rfl, c, String.toList_singleton c, hc⟩⟩
  | quoted hbody =>
    cases h
    exact .of_cls .quoted (by decide) rfl rfl rfl rfl
  | number htext => exact settle_number htext h
  | literal htext => exact settle_literal htext h

end

/-! ## The groups that settled tokens stand for -/

/-- What corresponds one by one to the members of groups comes in groups as well. -/
theorem exists_flatten_eq {α β : Type} {r : α → β → Prop} {groups : List (List β)} {as : List α}
    (h : List.Forall₂ r as groups.flatten) :
    ∃ groups' : List (List α), groups'.flatten = as ∧
      List.Forall₂ (List.Forall₂ r) groups' groups := by
  induction groups generalizing as with
  | nil =>
    cases h
    exact ⟨[], rfl, .nil⟩
  | cons group groups ih =>
    obtain ⟨groups', hflatten, hgroups⟩ := ih (List.forall₂_drop_append as group _ h)
    have hgroup := List.forall₂_take_append as group _ h
    refine ⟨as.take group.length :: groups', ?_, .cons hgroup hgroups⟩
    rw [List.flatten_cons, hflatten, List.take_append_drop]

theorem column_alone (t : Token) : t.alone.column = t.column := by
  rw [alone]
  split <;> rfl

theorem forall_mem_of_forall₂ {raws ts : List Token} {p : Token → Prop}
    (h : List.Forall₂ IsSettledFrom raws ts) (hp : ∀ raw t, IsSettledFrom raw t → p t) :
    ∀ t ∈ ts, p t := by
  induction h with
  | nil => exact List.forall_mem_nil _
  | cons hraw _ ih => exact List.forall_mem_cons.2 ⟨hp _ _ hraw, ih⟩

theorem areSettled_of_forall₂ {raws ts : List Token} (h : List.Forall₂ IsSettledFrom raws ts) :
    AreSettled ts :=
  forall_mem_of_forall₂ h fun _ _ hraw hcls ↦ (hraw.operator hcls).imp_left And.right

/-- Single operator characters are what the scanned line has there. -/
theorem eq_of_forall₂_of_isGlyph {raws ts : List Token} (h : List.Forall₂ IsSettledFrom raws ts)
    (hglyph : ∀ t ∈ ts, t.IsGlyph) : raws = ts := by
  induction h with
  | nil => rfl
  | cons hraw _ ih =>
    obtain ⟨ht, hts⟩ := List.forall_mem_cons.1 hglyph
    obtain ⟨rfl, -⟩ := (hraw.operator ht.1).resolve_right ht.not_isOperatorWord
    rw [ih hts]

/-- The token that settled tokens are fused to stands for the tokens that they were settled from. -/
theorem Fused.standsFor {raws group : List Token} {t : Token} (h : Fused group t)
    (hraws : List.Forall₂ IsSettledFrom raws group) : StandsFor raws t := by
  cases h with
  | alone u =>
    obtain _ | ⟨hraw, _ | _⟩ := hraws
    refine ⟨by simp, by simp, ?_, ?_, fun htwo ↦ absurd htwo (by simp)⟩
    · rintro _ ⟨⟩
      exact (column_alone u).trans hraw.column
    · rintro _ ⟨⟩
      exact ⟨u, hraw.settle, rfl⟩
  | @group u us text hlength hfused =>
    have htwo : 2 ≤ (u :: us).length := by simp only [List.length_cons]; omega
    obtain ⟨hthree, hglyph⟩ := isGlyph_of_fused? (areSettled_of_forall₂ hraws) htwo hfused
    obtain rfl := eq_of_forall₂_of_isGlyph hraws hglyph
    obtain ⟨hcls, hjoin, op, rfl⟩ := fused?_eq_some_iff.1 hfused
    refine ⟨by omega, hthree, ?_, ?_, fun _ ↦ ⟨hcls, hcls u (by simp), hjoin.symm, op, rfl⟩⟩
    · rintro _ ⟨⟩
      rfl
    · rintro _ ⟨⟩
      exact absurd htwo (by simp)

theorem forall₂_standsFor {raws groups : List (List Token)} {ts : List Token}
    (hraws : List.Forall₂ (List.Forall₂ IsSettledFrom) raws groups)
    (hgroups : List.Forall₂ Fused groups ts) : List.Forall₂ StandsFor raws ts := by
  induction hraws generalizing ts with
  | nil =>
    cases hgroups
    exact .nil
  | cons hraw _ ih =>
    obtain _ | ⟨hgroup, hgroups⟩ := hgroups
    exact .cons (hgroup.standsFor hraw) (ih hgroups)

theorem Fused.settle {group : List Token} {t : Token} (h : Fused group t)
    (hgroup : ∀ u ∈ group, u.settle = .ok u) : t.settle = .ok t := by
  cases h with
  | alone u => exact settle_alone (hgroup u (List.mem_singleton_self u))
  | group _ hfused =>
    obtain ⟨hcls, -⟩ := fused?_eq_some_iff.1 hfused
    rw [Token.settle]
    simp only [hcls _ (List.mem_cons_self ..)]
    rfl

theorem Fuses.settle {groups : List (List Token)} {ts : List Token} (h : Fuses groups ts)
    (hgroups : ∀ u ∈ groups.flatten, u.settle = .ok u) :
    ∀ t ∈ ts, t.settle = .ok t ∧ t.alone = t := by
  induction h with
  | nil => exact List.forall_mem_nil _
  | cons hgroup _ _ ih =>
    obtain ⟨hfirst, hrest⟩ := List.forall_mem_append.1 hgroups
    exact List.forall_mem_cons.2 ⟨⟨hgroup.settle hfirst, hgroup.alone_eq⟩, ih hrest⟩

/-! ## The result -/

/-- The tokens of a line, once settled, are not changed by settling them again.  They stand, in
order, for consecutive groups of the tokens that the line was scanned into: each at the column of
the first of its group, for a single token or for two or three operator tokens whose texts make up
an operator.  And no two or three operator tokens that are left side by side make up another one. -/
theorem settleAll_isStable {line : Option Int} {source : String} {tokens settled : List Token}
    (hscan : scan line source = .ok tokens) (h : settleAll tokens = .ok settled) :
    settleAll settled = .ok settled ∧
      (∃ groups, groups.flatten = tokens ∧ List.Forall₂ StandsFor groups settled) ∧
      IsUnfusible settled := by
  obtain ⟨single, hsingle, h⟩ := bind_eq_ok.1 h
  obtain rfl := pure_eq_ok.1 h
  have hscannable := (pieces_of_scanFrom hscan).isScannable
  have hraws : List.Forall₂ IsSettledFrom tokens single :=
    ((List.forall₂_and_left _ _).2 ⟨hscannable, forall₂_of_mapM hsingle⟩).imp
      fun _ _ ⟨hraw, hsettle⟩ ↦ hraw.settle hsettle
  obtain ⟨groups, rfl, hfuses⟩ := exists_fuses single
  have hunfusible := hfuses.isUnfusible (areSettled_of_forall₂ hraws)
  have hagain := hfuses.settle (forall_mem_of_forall₂ hraws fun _ _ hraw ↦ hraw.again)
  refine ⟨?_, ?_, hunfusible⟩
  · refine bind_eq_ok.2 ⟨fuse groups.flatten, mapM_of_forall₂ ?_, ?_⟩
    · exact List.forall₂_same.2 fun t ht ↦ (hagain t ht).1
    · exact congrArg Except.ok (fuse_eq_self hunfusible fun t ht ↦ (hagain t ht).2)
  · obtain ⟨raws, hflatten, hgroups⟩ := exists_flatten_eq hraws
    exact ⟨raws, hflatten, forall₂_standsFor hgroups hfuses.forall₂⟩

/-- Operator characters that could be grouped in several ways, a word that is an operator, a binary
numeral and a colon. -/
theorem settleAll_isStable_greedy :
    let tokens : List Token := [⟨"X", .literal, 0⟩, ⟨">", .operator, 1⟩, ⟨">", .operator, 2⟩,
      ⟨">", .operator, 3⟩, ⟨"=", .operator, 4⟩, ⟨"~", .operator, 5⟩, ⟨">", .operator, 6⟩,
      ⟨"0b101", .number, 7⟩, ⟨"mod", .literal, 13⟩, ⟨":", .operator, 16⟩, ⟨"<", .operator, 17⟩,
      ⟨">", .operator, 18⟩]
    let settled : List Token := [⟨"X", .literal, 0⟩, ⟨">>", .operator, 1⟩, ⟨">=", .operator, 3⟩,
      ⟨"~>", .operator, 5⟩, ⟨"5", .number, 7⟩, ⟨"MOD", .operator, 13⟩, ⟨":", .sequence, 16⟩,
      ⟨"<>", .operator, 17⟩]
    scan none "X>>>=~>0b101 mod:<>" = .ok tokens ∧ settleAll tokens = .ok settled ∧
      settleAll settled = .ok settled ∧
      (∃ groups, groups.flatten = tokens ∧ List.Forall₂ StandsFor groups settled) ∧
      IsUnfusible settled := by
  intro tokens settled
  have hscan : scan none "X>>>=~>0b101 mod:<>" = .ok tokens := by decide +kernel
  have hsettle : settleAll tokens = .ok settled := by decide +kernel
  exact ⟨hscan, hsettle, settleAll_isStable hscan hsettle⟩

end Token
end LineBasic
