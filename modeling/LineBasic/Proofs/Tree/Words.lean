import LineBasic.Proofs.Text.Upper
import LineBasic.Proofs.Tree.Builtins
import LineBasic.Proofs.Tree.Rejection

/-!
# The builtins that a text mentions

A tree calls and forms no functions of builtins but those that its text mentions, apart from
operators and `DIM`, which a declaration of an array stands for.  So whether a builtin may be called
can be read off the tokens of a text.

* `Tree.Uses`, `Tree.Settles` — trees that call and form functions of permitted builtins only, and
  trees that become such once their parameters are resolved.
* `settles_invariant` — the parser returns such trees.
* `uses_parseLine` — the statements of a line.
-/

set_option autoImplicit false
namespace LineBasic

/-! ## Trees -/

/-- The builtins that a tree calls, itself or in functions that it forms, are all permitted. -/
structure Tree.Uses (p : Builtin → Bool) (t : Tree) : Prop where
  calls : t.callsOnly p = true
  forms : t.formsOnly p = true

/-- Operators, and the declaration of arrays, are permitted. -/
structure Builtin.PermitsForms (p : Builtin → Bool) : Prop where
  unary : ∀ op, p (.ofUnary op) = true
  binary : ∀ op b, ofOperator? op = some b → p b = true
  dim : p .dim = true

namespace Tree

variable {p : Builtin → Bool} {t condition yes : Tree} {ts : List Tree} {name : String}

theorem uses_of_parts (hbuiltin : ∀ b ∈ t.builtin?, p b = true) (hparts : ∀ u ∈ t.parts, u.Uses p)
    (hforms : (∀ u ∈ t.parts, u.formsOnly p = true) → t.formsOnly p = true) : t.Uses p :=
  ⟨callsOnly_iff.2 ⟨hbuiltin, fun u hu ↦ (hparts u hu).calls⟩,
    hforms fun u hu ↦ (hparts u hu).forms⟩

theorem uses_ident (h : ∀ b ∈ Builtin.ofName? name, p b = true) : (ident name).Uses p :=
  ⟨rfl, (Option.all_eq_true _ _).2 h⟩

theorem uses_unary (hp : Builtin.PermitsForms p) (op : UnaryOperator) (h : t.Uses p) :
    (unary op t).Uses p :=
  uses_of_parts (fun b hb ↦ Option.some.inj hb ▸ hp.unary op) (by simpa [parts] using h)
    fun hforms ↦ hforms t (List.mem_singleton_self t)

theorem uses_binary (hp : Builtin.PermitsForms p) (op : Operator) {left right : Tree}
    (hl : left.Uses p) (hr : right.Uses p) : (binary op left right).Uses p :=
  uses_of_parts (hp.binary op) (by simpa [parts] using ⟨hl, hr⟩) fun _ ↦ by
    rw [formsOnly, hl.forms, hr.forms]
    rfl

theorem uses_call (hname : ∀ b ∈ Builtin.ofName? name, p b = true) (h : ∀ t ∈ ts, t.Uses p)
    (separators : List Separator) : (call name ts separators).Uses p :=
  uses_of_parts hname h fun hforms ↦ allFormOnly_iff.2 hforms

theorem uses_apply (hcallee : t.Uses p) (h : ∀ t ∈ ts, t.Uses p) (separators : List Separator) :
    (apply t ts separators).Uses p :=
  uses_of_parts nofun (List.forall_mem_cons.2 ⟨hcallee, h⟩) fun hforms ↦ by
    rw [formsOnly, hcallee.forms, Bool.true_and]
    exact allFormOnly_iff.2 fun u hu ↦ hforms u (List.mem_cons_of_mem _ hu)

theorem uses_array (h : ∀ t ∈ ts, t.Uses p) : (array ts).Uses p :=
  uses_of_parts nofun h fun hforms ↦ allFormOnly_iff.2 hforms

theorem uses_lambda (names : List String) (h : t.Uses p) : (lambda names t).Uses p :=
  ⟨rfl, by rw [formsOnly, h.calls, h.forms]; rfl⟩

theorem uses_branch (hcondition : condition.Uses p) (hyes : yes.Uses p) {no : Option Tree}
    (hno : ∀ t ∈ no, t.Uses p) : (branch condition yes no).Uses p :=
  uses_of_parts nofun (by simpa [parts] using ⟨hcondition, hyes, hno⟩) fun _ ↦ by
    rw [formsOnly, hcondition.forms, hyes.forms, Bool.true_and, Bool.true_and]
    exact elseFormsOnly_iff.2 fun t ht ↦ (hno t ht).forms

theorem uses_select {kind : JumpKind} (hkind : p kind.builtin = true) (htest : t.Uses p)
    (h : ∀ t ∈ ts, t.Uses p) : (select kind t ts).Uses p :=
  uses_of_parts (fun b hb ↦ Option.some.inj hb ▸ hkind) (List.forall_mem_cons.2 ⟨htest, h⟩)
    fun hforms ↦ by
      rw [formsOnly, htest.forms, Bool.true_and]
      exact allFormOnly_iff.2 fun u hu ↦ hforms u (List.mem_cons_of_mem _ hu)

/-! ## Parameters -/

theorem uses_signed (hp : Builtin.PermitsForms p) (op : UnaryOperator) (h : t.Uses p) :
    (signed op t).Uses p := by
  unfold signed
  split
  · exact ⟨rfl, rfl⟩
  · exact ⟨rfl, rfl⟩
  · exact uses_unary hp op h

/-- Once its parameters are resolved, whatever functions it stands in, a tree uses permitted
builtins only. -/
def Settles (p : Builtin → Bool) (t : Tree) : Prop :=
  ∀ binders, (t.resolveIn binders).Uses p

theorem uses_resolveAll (h : ∀ t ∈ ts, t.Settles p) (binders : Binders) :
    ∀ u ∈ resolveAll binders ts, u.Uses p := by
  rw [resolveAll_eq_map, List.forall_mem_map]
  exact fun t ht ↦ h t ht binders

theorem settles_null : null.Settles p := fun _ ↦ ⟨rfl, rfl⟩

theorem settles_ident (h : ∀ b ∈ Builtin.ofName? name, p b = true) : (ident name).Settles p := by
  intro binders
  rw [resolveIn]
  split
  · exact ⟨rfl, rfl⟩
  · exact uses_ident h

theorem settles_unary (hp : Builtin.PermitsForms p) (op : UnaryOperator) (h : t.Settles p) :
    (unary op t).Settles p := fun binders ↦
  uses_signed hp op (h binders)

theorem settles_binary (hp : Builtin.PermitsForms p) (op : Operator) {left right : Tree}
    (hl : left.Settles p) (hr : right.Settles p) : (binary op left right).Settles p := fun binders ↦
  uses_binary hp op (hl binders) (hr binders)

theorem settles_call (hname : ∀ b ∈ Builtin.ofName? name, p b = true) (h : ∀ t ∈ ts, t.Settles p)
    (separators : List Separator) : (call name ts separators).Settles p := by
  intro binders
  rw [resolveIn]
  split
  · exact uses_apply ⟨rfl, rfl⟩ (uses_resolveAll h binders) separators
  · exact uses_call hname (uses_resolveAll h binders) separators

theorem settles_apply (hcallee : t.Settles p) (h : ∀ t ∈ ts, t.Settles p)
    (separators : List Separator) : (apply t ts separators).Settles p := fun binders ↦
  uses_apply (hcallee binders) (uses_resolveAll h binders) separators

theorem settles_array (h : ∀ t ∈ ts, t.Settles p) : (array ts).Settles p := fun binders ↦
  uses_array (uses_resolveAll h binders)

theorem settles_lambda (names : List String) (h : t.Settles p) : (lambda names t).Settles p :=
  fun _ ↦ uses_lambda names (h _)

theorem settles_define (hp : Builtin.PermitsForms p)
    (hname : ∀ b ∈ Builtin.ofName? name, p b = true) (names : List String) (h : t.Settles p) :
    (define name names t).Settles p := fun _ ↦
  uses_binary hp _ (uses_ident hname) (uses_lambda names (h _))

theorem settles_branch (hcondition : condition.Settles p) (hyes : yes.Settles p) {no : Option Tree}
    (hno : ∀ t ∈ no, t.Settles p) : (branch condition yes no).Settles p := by
  refine fun binders ↦ uses_branch (hcondition binders) (hyes binders) fun t ht ↦ ?_
  rw [resolveElse_eq_map] at ht
  obtain ⟨u, hu, rfl⟩ := Option.map_eq_some_iff.1 ht
  exact hno u hu binders

theorem settles_select {kind : JumpKind} (hkind : p kind.builtin = true) (htest : t.Settles p)
    (h : ∀ t ∈ ts, t.Settles p) : (select kind t ts).Settles p := fun binders ↦
  uses_select hkind (htest binders) (uses_resolveAll h binders)

end Tree

open LineBasic.Tree

/-! ## The parser -/

/-- A token that names no builtin but a permitted one; quoted texts name nothing. -/
def Token.IsPermitted (p : Builtin → Bool) (t : Token) : Prop :=
  t.cls ≠ .quoted → ∀ b ∈ Builtin.ofName? t.text, p b = true

theorem Builtin.ofName?_upper (name : String) : ofName? (Text.upper name) = ofName? name := by
  rw [ofName?, ofName?, Text.upper_upper]

section
variable {p : Builtin → Bool} {tokens : List Token} {source : Source} {isBuiltin : String → Bool}

theorem Token.IsPermitted.upper {t : Token} (h : t.IsPermitted p) (hcls : t.cls ≠ .quoted) :
    ∀ b ∈ Builtin.ofName? (Text.upper t.text), p b = true := by
  rw [Builtin.ofName?_upper]
  exact h hcls

theorem permits_of_name {b : Builtin} {name : String} (hname : b.name = name)
    (h : ∀ b ∈ Builtin.ofName? name, p b = true) : p b = true :=
  h b (hname ▸ b.ofName?_name)

theorem JumpKind.name_builtin (kind : JumpKind) : kind.builtin.name = kind.text := by
  cases kind with
  | goto => rfl
  | gosub => rfl

/-- A tree that is put together from words that name permitted builtins, or none, and from
operators settles to one that uses permitted builtins only. -/
theorem settles_invariant (isBuiltin : String → Bool) (source : Source)
    (hp : Builtin.PermitsForms p) (htokens : ∀ t ∈ tokens, t.IsPermitted p) :
    Parse.Invariant isBuiltin source (fun items ↦ Item.tokensOfRun items ⊆ tokens)
      (fun name ↦ ∀ b ∈ Builtin.ofName? name, p b = true) (fun _ ↦ Settles p) (fun _ ↦ True) where
  toParts := .ofTokens fun t ht hcls ↦
    (htokens t ht).upper (by rcases hcls with hcls | hcls <;> simp [hcls])
  toRefusals := .all
  statement h := h
  null := settles_null
  number _ _ := ⟨rfl, rfl⟩
  string _ _ := ⟨rfl, rfl⟩
  boolean _ _ := ⟨rfl, rfl⟩
  ident := settles_ident
  params _ _ := ⟨rfl, rfl⟩
  unary op _ := settles_unary hp op
  binary op _ _ := settles_binary hp op
  lambda names _ := settles_lambda names
  array := settles_array
  call hname _ h separators := settles_call hname h separators
  apply hcallee _ h separators := settles_apply hcallee h separators
  dim b hb := by
    obtain rfl := Option.some.inj ((Builtin.ofName?_name .dim).symm.trans hb)
    exact hp.dim
  define hname names _ := settles_define hp hname names
  select {kind} hkind _ htest _ h :=
    settles_select (permits_of_name kind.name_builtin hkind) htest h
  branch _ _ _ _ _ hcondition hyes hno := settles_branch hcondition hyes hno

/-! ## Lines -/

theorem settles_of_parseTokens {line : Option Int} (hp : Builtin.PermitsForms p)
    (htokens : ∀ t ∈ tokens, t.IsPermitted p) {statements : List (Option Tree)}
    (h : parseTokens isBuiltin line tokens = .ok statements) {t : Tree}
    (ht : some t ∈ statements) : t.Settles p := by
  obtain ⟨items, run, hgather, hrun, hparse⟩ := exists_run_of_parseTokens h ht
  exact (settles_invariant isBuiltin _ hp htokens).good_of_parseStatement
    (List.Subset.trans (Item.tokensOfRun_subset hrun.subset)
      (Item.tokensOfRun_of_gather hgather)) hparse

end

/-- Whether a text mentions a word, in any case of letters: it is a token of the text that is not
quoted. -/
def mentions (text word : String) : Bool :=
  match settledTokens none text with
  | .ok tokens => tokens.any fun t ↦ t.cls != .quoted && Text.upper t.text == word
  | .error _ => false

section
variable {p : Builtin → Bool} {isBuiltin : String → Bool} {text : String}

theorem Builtin.name_of_ofName? {b : Builtin} {name : String} (h : ofName? name = some b) :
    b.name = Text.upper name := by
  rw [ofName?, ofKey?] at h
  have hname := List.find?_some h
  exact eq_of_beq hname

theorem isPermitted_of_mentions (h : ∀ b, p b = false → mentions text b.name = false)
    {tokens : List Token} (htokens : settledTokens none text = .ok tokens) :
    ∀ t ∈ tokens, t.IsPermitted p := by
  intro t ht hcls b hb
  cases hpermits : p b with
  | true => rfl
  | false =>
    have hmentions := h b hpermits
    rw [mentions, htokens] at hmentions
    have hnot := List.any_eq_false.1 hmentions t ht
    exact absurd (by simp [hcls, Builtin.name_of_ofName? hb]) hnot

/-- The statements of a line use permitted builtins only, if it mentions no others. -/
theorem uses_parseLine (hp : Builtin.PermitsForms p)
    (h : ∀ b, p b = false → mentions text b.name = false) {statements : List (Option Tree)}
    (hparse : parseLine isBuiltin none text = .ok statements) {t : Tree}
    (ht : some t ∈ statements) : t.Uses p := by
  obtain ⟨raw, hraw, hresolved⟩ := bind_eq_ok.1 hparse
  cases hresolved
  obtain ⟨r, hr, heq⟩ := List.mem_map.1 ht
  obtain ⟨u, rfl, rfl⟩ := Option.map_eq_some_iff.1 heq
  rw [parseRaw] at hraw
  split at hraw
  · cases hraw
    cases hr
  obtain ⟨tokens, htokens, hraw⟩ := bind_eq_ok.1 hraw
  exact settles_of_parseTokens hp (isPermitted_of_mentions h htokens) hraw hr []

end
end LineBasic
