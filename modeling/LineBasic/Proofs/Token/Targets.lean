import LineBasic.Proofs.Program.Rewriting
import LineBasic.Tree.Line

/-!
# The targets among the tokens of a line

A target is a number token in a list that comes right after a word such as `GOTO`.  Going through the
tokens of a line, it is enough to remember what the list may go on with.

* `Program.Awaited.next` — what may come after a token.
* `Program.Renumbering.Retargets` — what the tokens of a line become.
* `IsPlain` — tokens that have the same targets as the text that they are scanned from.
* `Program.Renumbering.Retargets.settleAll` — tokens are settled alike before and after.
-/

set_option autoImplicit false
namespace LineBasic

open Program (Awaited Renumbering)

/-! ## Targets -/

/-- Whether the token is a word that targets come after. -/
def Token.isJump (t : Token) : Bool :=
  t.isWord "GOTO" || t.isWord "GOSUB" || t.isWord "BREAKTO"

theorem Token.isJump_iff {t : Token} : t.isJump = true ↔
    t.cls = .literal ∧ Text.upper t.text ∈ ["GOTO", "GOSUB", "BREAKTO"] := by
  simp only [isJump, isWord, Bool.or_eq_true, Bool.and_eq_true, beq_iff_eq, List.mem_cons,
    List.not_mem_nil, or_false]
  tauto

/-- A word that targets come after is a jump word in the text, too. -/
theorem Token.isJumpWord_of_isJump {t : Token} (h : t.isJump = true) :
    Program.IsJumpWord t.text.toList := by
  refine .of_upper ?_
  have hupper : (Text.upper t.text).toList ∈ ["GOTO", "GOSUB", "BREAKTO"].map String.toList :=
    List.mem_map_of_mem (isJump_iff.1 h).2
  rwa [Text.upper, String.toList_ofList] at hupper

namespace Program.Awaited

/-- Whether the token is a target. -/
def isTarget (awaited : Awaited) (t : Token) : Bool :=
  awaited == .target && t.cls == .number

/-- What may come after the token. -/
def next (awaited : Awaited) (t : Token) : Awaited :=
  if t.isJump then .target
  else if awaited.isTarget t then .comma
  else if awaited == .comma && t.cls == .separator && t.text == "," then .target
  else .nothing

end Program.Awaited

namespace Program.Renumbering

/-- A target renumbered: one that is no line's number is left as it is. -/
def target (m : Renumbering) (text : String) : String :=
  match lineNumber text.toList with
  | .ok n => ((m.find? n).map toString).getD text
  | .error _ => text

/-- What a token becomes: a target is renumbered, and other tokens stay as they are, but for quoted
text with a reference in it, which is renumbered like the text of a line. -/
structure Turns (m : Renumbering) (awaited : Awaited) (t t' : Token) : Prop where
  cls : t'.cls = t.cls
  target : awaited.isTarget t = true → t'.text = m.target t.text
  other : awaited.isTarget t = false → t'.text = t.text ∨
    t.cls = .quoted ∧ hasReference false t.text.toList [] = true ∧ m.text t.text = .ok t'.text

/-- What the tokens of a line become. -/
inductive Retargets (m : Renumbering) : Awaited → List Token → List Token → Prop
  | nil {awaited : Awaited} : Retargets m awaited [] []
  | cons {awaited : Awaited} {t t' : Token} {tokens tokens' : List Token}
      (h : m.Turns awaited t t') (hrest : Retargets m (awaited.next t) tokens tokens') :
      Retargets m awaited (t :: tokens) (t' :: tokens')

end Program.Renumbering

/-! ## Plain lines -/

namespace Token

/-- Whether the text of a literal shows what the literal is to the rewriting of texts: it has no
blanks and starts with no digit, and it ends with a jump word only if it is one. -/
def isPlainName (t : Token) : Bool :=
  t.text.toList.all (!Text.isBlank ·) && !t.text.toList.head?.any Text.isDecimalDigit &&
    (!Program.endsInJumpWord false t.text.toList || t.isJump)

theorem isPlainName_iff {t : Token} : t.isPlainName = true ↔
    (∀ c ∈ t.text.toList, Text.isBlank c = false) ∧
      (∀ c ∈ t.text.toList.head?, Text.isDecimalDigit c = false) ∧
      (Program.endsInJumpWord false t.text.toList = true → t.isJump = true) := by
  rw [isPlainName, Bool.and_eq_true, Bool.and_eq_true, and_assoc]
  refine and_congr (by simp) (and_congr ?_ ?_)
  · cases t.text.toList.head? <;> simp
  · cases Program.endsInJumpWord false t.text.toList <;> simp

/-- Whether a literal right behind a number is no jump word and does not make up one with the end of
the number. -/
def keepsApart (t u : Token) : Bool :=
  !(t.cls == .number && u.cls == .literal && u.column == t.column + t.text.length) ||
    !u.isJump && !Program.endsInJumpWord false (t.text.toList ++ u.text.toList)

end Token

/-- Whether all targets are written in digits. -/
def hasPlainTargets : Awaited → List Token → Bool
  | _, [] => true
  | awaited, t :: tokens =>
    (!awaited.isTarget t || t.text.toList.all Char.isDigit) &&
      hasPlainTargets (awaited.next t) tokens

/-- Tokens that have the same targets as the text they are scanned from. -/
structure IsPlain (awaited : Awaited) (tokens : List Token) : Prop where
  names : ∀ t ∈ tokens, t.cls = .literal → t.isPlainName = true
  apart : tokens.IsChain fun t u ↦ t.keepsApart u = true
  targets : hasPlainTargets awaited tokens = true

instance (awaited : Awaited) (tokens : List Token) : Decidable (IsPlain awaited tokens) :=
  decidable_of_iff ((∀ t ∈ tokens, t.cls = .literal → t.isPlainName = true) ∧
    tokens.IsChain (fun t u ↦ t.keepsApart u = true) ∧ hasPlainTargets awaited tokens = true)
    ⟨fun ⟨names, apart, targets⟩ ↦ ⟨names, apart, targets⟩,
      fun ⟨names, apart, targets⟩ ↦ ⟨names, apart, targets⟩⟩

theorem IsPlain.isPlainName {awaited : Awaited} {t : Token} {tokens : List Token}
    (h : IsPlain awaited (t :: tokens)) (hcls : t.cls = .literal) : t.isPlainName = true :=
  h.names t (List.mem_cons_self ..) hcls

/-- A literal right behind a number is no jump word, and makes up none with the number. -/
theorem IsPlain.of_adjacent {awaited : Awaited} {t u : Token} {tokens : List Token}
    (h : IsPlain awaited (t :: u :: tokens)) (ht : t.cls = .number) (hu : u.cls = .literal)
    (hcolumn : u.column = t.column + t.text.length) :
    u.isJump = false ∧
      Program.endsInJumpWord false (t.text.toList ++ u.text.toList) = false := by
  have hapart := (List.isChain_cons_cons.1 h.apart).1
  simpa [Token.keepsApart, ht, hu, hcolumn] using hapart

theorem IsPlain.tail {awaited : Awaited} {t : Token} {tokens : List Token}
    (h : IsPlain awaited (t :: tokens)) : IsPlain (awaited.next t) tokens where
  names := (List.forall_mem_cons.1 h.names).2
  apart := h.apart.tail
  targets := (Bool.and_eq_true_iff.1 h.targets).2

/-! ## Settling -/

namespace Token

variable {awaited : Awaited} {m : Renumbering} {t t' u : Token} {tokens tokens' : List Token}

theorem settle_of_isDigit (hcls : t.cls = .number) (hne : t.text.toList ≠ [])
    (h : ∀ c ∈ t.text.toList, c.isDigit = true) : t.settle = .ok t := by
  simp only [settle, hcls, Numeral.isNumeral_of_isDigit hne h, if_true,
    Numeral.decimalOfBinary?_of_isDigit h]
  rfl

theorem settle_quoted (hcls : t.cls = .quoted) : t.settle = .ok t := by
  simp only [settle, hcls]
  rfl

theorem settle_congr (hcls : t'.cls = t.cls) (htext : t'.text = t.text) :
    t'.settle = t.settle.map fun u ↦ { u with column := t'.column } := by
  cases t with
  | mk text cls column =>
    cases t' with
    | mk text' cls' column' =>
      obtain rfl := hcls
      obtain rfl := htext
      cases cls' with
      | number =>
        simp only [settle]
        split
        · cases Numeral.decimalOfBinary? text' with
          | error mishap => rfl
          | ok text => cases text <;> rfl
        · rfl
      | literal =>
        simp only [settle]
        split
        · rfl
        · split <;> rfl
      | _ => rfl

/-- What settling can do to a token. -/
theorem of_settle (h : t.settle = .ok u) : u = t ∨
    t.cls = .number ∧ (u.cls = .number ∨ u.cls = .literal ∧ u.text = t.text) ∨
    t.cls = .literal ∧ t.isJump = false ∧ (u.cls = .operator ∨ u.cls = .boolean) := by
  rw [settle] at h
  split at h
  · rename_i hcls
    refine .inr (.inl ⟨hcls, ?_⟩)
    split at h
    · obtain ⟨text, -, h⟩ := bind_eq_ok.1 h
      split at h
      · exact .inl (Except.ok.inj h ▸ hcls)
      · exact .inl (Except.ok.inj h ▸ hcls)
    · exact .inr (Except.ok.inj h ▸ ⟨rfl, rfl⟩)
  · rename_i hcls
    simp only at h
    split at h
    · rename_i hop
      refine .inr (.inr ⟨hcls, Bool.eq_false_iff.2 fun hjump ↦ ?_, .inl (Except.ok.inj h ▸ rfl)⟩)
      have hnone : ∀ w ∈ ["GOTO", "GOSUB", "BREAKTO"], (Operator.ofText? w).isSome = false := by
        decide +kernel
      rw [hnone _ (isJump_iff.1 hjump).2] at hop
      cases hop
    · split at h
      · rename_i hbool
        refine .inr (.inr ⟨hcls, Bool.eq_false_iff.2 fun hjump ↦ ?_,
          .inr (Except.ok.inj h ▸ rfl)⟩)
        have hother : ∀ w ∈ ["GOTO", "GOSUB", "BREAKTO"], (w == "TRUE" || w == "FALSE") = false := by
          decide +kernel
        rw [hother _ (isJump_iff.1 hjump).2] at hbool
        cases hbool
      · exact .inl (Except.ok.inj h).symm
  · exact .inl (Except.ok.inj h).symm

end Token

section

variable {awaited : Awaited} {m : Renumbering} {t t' u : Token} {tokens tokens' : List Token}

namespace Program.Renumbering

variable {text : String}

/-- A target has new digits, or those that it had. -/
theorem target_cases (m : Renumbering) (text : String) :
    (∃ new : Nat, m.target text = toString new) ∨ m.target text = text := by
  rw [target]
  split
  · cases m.find? _ with
    | some new => exact .inl ⟨new, rfl⟩
    | none => exact .inr rfl
  · exact .inr rfl

theorem target_of_part {digits new : List Char} (h : m.part (.numeral digits) = .ok new) :
    m.target (String.ofList digits) = String.ofList new := by
  obtain ⟨n, hn, h⟩ := bind_eq_ok.1 h
  rw [target, String.toList_ofList, hn]
  split at h
  · rename_i new hnew
    cases h
    simp only [hnew]
    exact String.ofList_toList.symm
  · rename_i hnone
    cases h
    simp only [hnone]
    rfl

theorem target_isDigit (hne : text.toList ≠ []) (h : ∀ c ∈ text.toList, c.isDigit = true) :
    (m.target text).toList ≠ [] ∧ ∀ c ∈ (m.target text).toList, c.isDigit = true := by
  obtain ⟨new, hnew⟩ | hsame := m.target_cases text
  · rw [hnew]
    exact ⟨Numeral.digits_ne_nil new, fun _ ↦ Numeral.isDigit_of_mem_digits⟩
  · rw [hsame]
    exact ⟨hne, h⟩

end Program.Renumbering

namespace Program.Awaited

theorem next_eq_nothing (hjump : t.isJump = false) (htarget : awaited.isTarget t = false)
    (hcls : t.cls ≠ .separator) : awaited.next t = .nothing := by
  simp [next, hjump, htarget, hcls]

theorem isTarget_of_ne (h : t.cls ≠ .number) : awaited.isTarget t = false := by
  simp [isTarget, h]

theorem next_of_operator (h : t.cls = .operator) : awaited.next t = .nothing :=
  next_eq_nothing (Bool.eq_false_iff.2 fun hjump ↦ by simp [(Token.isJump_iff.1 hjump).1] at h)
    (isTarget_of_ne (by simp [h])) (by simp [h])

end Program.Awaited

theorem Token.isJump_of_ne (h : t.cls ≠ .literal) : t.isJump = false :=
  Bool.eq_false_iff.2 fun hjump ↦ h (isJump_iff.1 hjump).1

theorem Token.toList_ne_nil (h : t.text.toList.head?.any Char.isDigit = true) :
    t.text.toList ≠ [] := fun hnil ↦ by
  rw [hnil] at h
  cases h

/-- Settling a token changes nothing in what is awaited. -/
theorem Program.Awaited.next_settle (hu : t.settle = .ok u)
    (hdigit : t.cls = .number → t.text.toList.head?.any Char.isDigit = true)
    (htarget : awaited.isTarget t = true → ∀ c ∈ t.text.toList, c.isDigit = true) :
    awaited.isTarget u = awaited.isTarget t ∧ awaited.next u = awaited.next t := by
  obtain rfl | ⟨hcls, hnumber | ⟨hliteral, htext⟩⟩ | ⟨hcls, hjump, hu⟩ := Token.of_settle hu
  · exact ⟨rfl, rfl⟩
  · have hsame : awaited.isTarget u = awaited.isTarget t := by
      rw [isTarget, isTarget, hnumber, hcls]
    refine ⟨hsame, ?_⟩
    simp [next, hsame, hnumber, hcls, Token.isJump_of_ne]
  · have hplain : awaited.isTarget t = false := Bool.eq_false_iff.2 fun ht ↦ by
      rw [Token.settle_of_isDigit hcls (Token.toList_ne_nil (hdigit hcls)) (htarget ht)] at hu
      rw [← Except.ok.inj hu, hcls] at hliteral
      cases hliteral
    have hother : awaited.isTarget u = false := isTarget_of_ne (by simp [hliteral])
    have hjump : u.isJump = false := Bool.eq_false_iff.2 fun hjump ↦ by
      have hword := Token.isJumpWord_of_isJump hjump
      rw [htext] at hword
      obtain ⟨c, hc, hdigit⟩ := (Option.any_eq_true _ _).1 (hdigit hcls)
      rw [hword.not_isDigit c (List.mem_of_mem_head? hc)] at hdigit
      cases hdigit
    rw [hplain, hother, next_eq_nothing hjump hother (by simp [hliteral]),
      next_eq_nothing (Token.isJump_of_ne (by simp [hcls])) hplain (by simp [hcls])]
    exact ⟨rfl, rfl⟩
  · have hplain : awaited.isTarget t = false := isTarget_of_ne (by simp [hcls])
    have hne : u.cls ≠ .number ∧ u.cls ≠ .literal ∧ u.cls ≠ .separator := by
      obtain hu | hu := hu <;> simp [hu]
    have hother : awaited.isTarget u = false := isTarget_of_ne hne.1
    rw [hplain, hother, next_eq_nothing (Token.isJump_of_ne hne.2.1) hother hne.2.2,
      next_eq_nothing hjump hplain (by simp [hcls])]
    exact ⟨rfl, rfl⟩

/-- Tokens are settled alike before and after their targets are renumbered. -/
theorem Program.Renumbering.Turns.settle (h : m.Turns awaited t t') (hu : t.settle = .ok u)
    (hdigit : t.cls = .number → t.text.toList.head?.any Char.isDigit = true)
    (htarget : awaited.isTarget t = true → ∀ c ∈ t.text.toList, c.isDigit = true) :
    ∃ u', t'.settle = .ok u' ∧ m.Turns awaited u u' := by
  by_cases ht : awaited.isTarget t = true
  · have hcls : t.cls = .number := by
      rw [Awaited.isTarget, Bool.and_eq_true, beq_iff_eq, beq_iff_eq] at ht
      exact ht.2
    have hne := Token.toList_ne_nil (hdigit hcls)
    rw [Token.settle_of_isDigit hcls hne (htarget ht)] at hu
    cases hu
    obtain ⟨hne', hdigits⟩ := target_isDigit (m := m) hne (htarget ht)
    rw [← h.target ht] at hne' hdigits
    exact ⟨t', Token.settle_of_isDigit (h.cls.trans hcls) hne' hdigits, h⟩
  · have hother := Bool.eq_false_iff.2 ht
    have hsame := (Awaited.next_settle hu hdigit htarget).1
    obtain htext | ⟨hquoted, -⟩ := h.other hother
    · refine ⟨{ u with column := t'.column }, ?_, rfl, fun hu ↦ ?_, fun _ ↦ .inl rfl⟩
      · rw [Token.settle_congr h.cls htext, hu]
        rfl
      · rw [hsame, hother] at hu
        cases hu
    · rw [Token.settle_quoted hquoted] at hu
      cases hu
      exact ⟨t', Token.settle_quoted (h.cls.trans hquoted), h⟩

namespace Program.Renumbering

theorem Retargets.settle {settled : List Token} (h : m.Retargets awaited tokens tokens')
    (hsettled : tokens.mapM Token.settle = .ok settled)
    (hdigit : ∀ t ∈ tokens, t.cls = .number → t.text.toList.head?.any Char.isDigit = true)
    (htargets : hasPlainTargets awaited tokens = true) :
    ∃ settled', tokens'.mapM Token.settle = .ok settled' ∧
      m.Retargets awaited settled settled' := by
  induction h generalizing settled with
  | nil =>
    cases hsettled
    exact ⟨[], rfl, .nil⟩
  | @cons awaited t t' tokens tokens' h _ ih =>
    rw [List.mapM_cons] at hsettled
    obtain ⟨u, hu, hsettled⟩ := bind_eq_ok.1 hsettled
    obtain ⟨us, hus, hsettled⟩ := bind_eq_ok.1 hsettled
    cases hsettled
    obtain ⟨hdigit, hdigits⟩ := List.forall_mem_cons.1 hdigit
    obtain ⟨htarget, htargets⟩ := Bool.and_eq_true_iff.1 htargets
    have htarget : awaited.isTarget t = true → ∀ c ∈ t.text.toList, c.isDigit = true := fun ht ↦ by
      simpa [ht] using htarget
    obtain ⟨u', hu', hturns⟩ := h.settle hu hdigit htarget
    obtain ⟨us', hus', hrest⟩ := ih hus hdigits htargets
    refine ⟨u' :: us', ?_, .cons hturns ((Awaited.next_settle hu hdigit htarget).2 ▸ hrest)⟩
    rw [List.mapM_cons, hu', hus']
    rfl

/-! ## Fusing -/

theorem operators_of_fused? {group : List Token} {text : String}
    (h : Token.fused? group = some text) : ∀ t ∈ group, t.cls = .operator := by
  rw [Token.fused?] at h
  split at h
  · rename_i hall
    simpa using hall
  · cases h

theorem Turns.text_of_operator (h : m.Turns awaited t t') (hcls : t.cls = .operator) :
    t'.text = t.text := by
  obtain htext | ⟨hquoted, -⟩ := h.other (Awaited.isTarget_of_ne (by simp [hcls]))
  · exact htext
  · rw [hcls] at hquoted
    cases hquoted

/-- Renumbering does not touch what groups of tokens are fused to. -/
theorem Retargets.fused? (h : m.Retargets awaited tokens tokens') :
    Token.fused? tokens' = Token.fused? tokens := by
  have hall : (tokens'.all (·.cls == .operator)) = tokens.all (·.cls == .operator) := by
    induction h with
    | nil => rfl
    | cons h _ ih => rw [List.all_cons, List.all_cons, ih, h.cls]
  rw [Token.fused?, Token.fused?, hall]
  by_cases hoperators : tokens.all (·.cls == .operator) = true
  · have htexts : tokens'.map Token.text = tokens.map Token.text := by
      clear hall
      induction h with
      | nil => rfl
      | cons h _ ih =>
        rw [List.all_cons, Bool.and_eq_true, beq_iff_eq] at hoperators
        rw [List.map_cons, List.map_cons, h.text_of_operator hoperators.1, ih hoperators.2]
    rw [if_pos hoperators, if_pos hoperators, htexts]
  · rw [if_neg hoperators, if_neg hoperators]

theorem Turns.of_ne (hcls : t'.cls = t.cls) (hne : t.cls ≠ .number) (htext : t'.text = t.text) :
    m.Turns awaited t t' where
  cls := hcls
  target htarget := by
    rw [Awaited.isTarget_of_ne hne] at htarget
    cases htarget
  other _ := .inl htext

theorem Turns.alone (h : m.Turns awaited t t') :
    m.Turns awaited t.alone t'.alone ∧ awaited.next t.alone = awaited.next t := by
  by_cases hcolon : t.cls = .operator ∧ t.text = ":"
  · obtain ⟨hcls, htext⟩ := hcolon
    have halone : ∀ u : Token, u.cls = .operator → u.text = ":" →
        u.alone = { u with cls := .sequence } := fun u hu htext ↦ by simp [Token.alone, hu, htext]
    rw [halone t hcls htext, halone t' (h.cls.trans hcls) ((h.text_of_operator hcls).trans htext)]
    refine ⟨.of_ne rfl (by simp) (h.text_of_operator hcls), ?_⟩
    rw [Awaited.next_of_operator hcls]
    exact Awaited.next_eq_nothing (Token.isJump_of_ne (by simp))
      (Awaited.isTarget_of_ne (by simp)) (by simp)
  · have halone : t.alone = t := Token.alone_eq_self fun hcls htext ↦ hcolon ⟨hcls, htext⟩
    have halone' : t'.alone = t' := Token.alone_eq_self fun hcls htext ↦ by
      have hcls := h.cls.symm.trans hcls
      exact hcolon ⟨hcls, (h.text_of_operator hcls).symm.trans htext⟩
    rw [halone, halone']
    exact ⟨h, rfl⟩

/-- An operator token whose text changes with the others is fused alike. -/
theorem Turns.cons_fused (h : m.Turns awaited t t') (hcls : t.cls = .operator) (text : String)
    (hrest : m.Retargets .nothing tokens tokens') :
    m.Retargets awaited ({ t with text } :: tokens) ({ t' with text } :: tokens') := by
  have hnext : awaited.next { t with text } = .nothing := Awaited.next_of_operator hcls
  exact .cons (.of_ne h.cls (by simp [hcls]) rfl) (hnext ▸ hrest)

theorem Retargets.fuse (h : m.Retargets awaited tokens tokens') :
    m.Retargets awaited (Token.fuse tokens) (Token.fuse tokens') := by
  fun_induction Token.fuse tokens generalizing awaited tokens' with
  | case1 a b c rest text hfused ih =>
    have hoperators := operators_of_fused? hfused
    simp only [List.forall_mem_cons] at hoperators
    obtain ⟨ha, -, hc, -⟩ := hoperators
    cases h with | cons hta h => cases h with | cons htb h => cases h with | cons htc hrest =>
    rw [Token.fuse, Retargets.fused? (.cons hta (.cons htb (.cons htc .nil))), hfused]
    exact hta.cons_fused ha text (ih (Awaited.next_of_operator hc ▸ hrest))
  | case2 a b c rest hthree text htwo ih =>
    have hoperators := operators_of_fused? htwo
    simp only [List.forall_mem_cons] at hoperators
    obtain ⟨ha, hb, -⟩ := hoperators
    cases h with | cons hta h => cases h with | cons htb h => cases h with | cons htc hrest =>
    rw [Token.fuse, Retargets.fused? (.cons hta (.cons htb (.cons htc .nil))), hthree,
      Retargets.fused? (.cons hta (.cons htb .nil)), htwo]
    exact hta.cons_fused ha text (ih (Awaited.next_of_operator hb ▸ .cons htc hrest))
  | case3 a b c rest hthree htwo ih =>
    cases h with | cons hta h => cases h with | cons htb h => cases h with | cons htc hrest =>
    rw [Token.fuse, Retargets.fused? (.cons hta (.cons htb (.cons htc .nil))), hthree,
      Retargets.fused? (.cons hta (.cons htb .nil)), htwo]
    exact .cons hta.alone.1 (hta.alone.2 ▸ ih (.cons htb (.cons htc hrest)))
  | case4 a b text hfused =>
    have hoperators := operators_of_fused? hfused
    simp only [List.forall_mem_cons] at hoperators
    cases h with | cons hta h => cases h with | cons htb h => cases h with | nil =>
    rw [Token.fuse, Retargets.fused? (.cons hta (.cons htb .nil)), hfused]
    exact hta.cons_fused hoperators.1 text .nil
  | case5 a b hnone =>
    cases h with | cons hta h => cases h with | cons htb h => cases h with | nil =>
    rw [Token.fuse, Retargets.fused? (.cons hta (.cons htb .nil)), hnone]
    exact .cons hta.alone.1 (hta.alone.2 ▸ .cons htb.alone.1 .nil)
  | case6 a =>
    cases h with | cons hta h => cases h with | nil =>
    exact .cons hta.alone.1 .nil
  | case7 =>
    cases h
    exact .nil

/-- Before and after their targets are renumbered, the tokens of a line are settled alike. -/
theorem Retargets.settleAll {settled : List Token} (h : m.Retargets awaited tokens tokens')
    (hsettled : Token.settleAll tokens = .ok settled)
    (hdigit : ∀ t ∈ tokens, t.cls = .number → t.text.toList.head?.any Char.isDigit = true)
    (htargets : hasPlainTargets awaited tokens = true) :
    ∃ settled', Token.settleAll tokens' = .ok settled' ∧
      m.Retargets awaited settled settled' := by
  obtain ⟨singles, hsingles, hsettled⟩ := bind_eq_ok.1 hsettled
  cases hsettled
  obtain ⟨singles', hsingles', hrest⟩ := h.settle hsingles hdigit htargets
  refine ⟨Token.fuse singles', ?_, hrest.fuse⟩
  rw [Token.settleAll, hsingles']
  rfl

end Program.Renumbering

end

end LineBasic
