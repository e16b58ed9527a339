import LineBasic.Proofs.Results
import LineBasic.Proofs.Tree.Conditions
import LineBasic.Proofs.Tree.Positional

/-!
# Runs of items as they are written

A run of items stands for a run of tokens: each token for itself, each group for its two brackets
and what is between them.  A run of tokens is balanced just if it is what some items stand for, and
then whatever is done by counting and searching in the tokens comes to what is read off the items.

* `Item.Spells` — the tokens that items stand for.
* `Item.Spells.isBalanced`, `Positional.IsBalanced.exists_spells` — the runs that are balanced.
* `Item.Spells.outside`, `Item.Spells.matchingClose` — counting and searching.
* `Positional.IsBalanced.isSearchable` — both of them do not slip in balanced runs.
* `Item.Spells.cutAt`, `Item.Spells.topOperator?` — cutting.
-/

set_option autoImplicit false
namespace LineBasic

/-! ## Brackets -/

namespace Token

/-- Whether the token is a closing bracket of the kind. -/
def closes (b : Bracket) (t : Token) : Bool :=
  t.cls == .paren && t.text == b.closing

theorem cls_of_opens {b : Bracket} {t : Token} (h : t.opens b = true) : t.cls = .paren := by
  simp only [opens, Bool.and_eq_true, beq_iff_eq] at h
  exact h.1

theorem text_of_opens {b : Bracket} {t : Token} (h : t.opens b = true) : t.text = b.opening := by
  simp only [opens, Bool.and_eq_true, beq_iff_eq] at h
  exact h.2

theorem cls_of_closes {b : Bracket} {t : Token} (h : t.closes b = true) : t.cls = .paren := by
  simp only [closes, Bool.and_eq_true, beq_iff_eq] at h
  exact h.1

theorem text_of_closes {b : Bracket} {t : Token} (h : t.closes b = true) :
    t.text = b.closing := by
  simp only [closes, Bool.and_eq_true, beq_iff_eq] at h
  exact h.2

theorem ofOpening?_of_opens {b : Bracket} {t : Token} (h : t.opens b = true) :
    Bracket.ofOpening? t.text = some b := by
  rw [text_of_opens h]
  cases b <;> decide

theorem ofOpening?_of_closes {b : Bracket} {t : Token} (h : t.closes b = true) :
    Bracket.ofOpening? t.text = none := by
  rw [text_of_closes h]
  cases b <;> decide

theorem isOpening_of_opens {b : Bracket} {t : Token} (h : t.opens b = true) :
    t.isOpening = true := by
  rw [isOpening, ofOpening?_of_opens h, Option.isSome_some]

theorem isOpening_of_closes {b : Bracket} {t : Token} (h : t.closes b = true) :
    t.isOpening = false := by
  rw [isOpening, ofOpening?_of_closes h, Option.isSome_none]

theorem opens_of_ofOpening? {b : Bracket} {t : Token} (hcls : t.cls = .paren)
    (h : Bracket.ofOpening? t.text = some b) : t.opens b = true := by
  have hb := List.find?_some h
  rw [opens, hcls, beq_self_eq_true, Bool.true_and, ← beq_iff_eq.1 hb, beq_self_eq_true]

/-- An opening bracket is of one kind. -/
theorem opens_iff_of_opens {b b' : Bracket} {t : Token} (h : t.opens b = true) :
    t.opens b' = (b' == b) := by
  rw [opens, cls_of_opens h, text_of_opens h]
  cases b <;> cases b' <;> decide

end Token

namespace Item

/-- The tokens that a run of items stands for. -/
inductive Spells : List Item → List Token → Prop
  | nil : Spells [] []
  | token {t is ts} (ht : t.cls ≠ .paren) (h : Spells is ts) : Spells (.token t :: is) (t :: ts)
  | group {b inside is o c ts us} (ho : o.opens b = true) (hc : c.closes b = true)
      (hinside : Spells inside ts) (h : Spells is us) :
      Spells (.group b inside :: is) (o :: (ts ++ c :: us))

namespace Spells

variable {is js : List Item} {ts us : List Token}

theorem length_eq (h : Spells is ts) : ts.length = sizeOfRun is := by
  induction h with
  | nil => rfl
  | token _ _ ih => rw [List.length_cons, sizeOfRun_cons, size_token, ih, Nat.add_comm]
  | group _ _ _ _ ihinside ih =>
    simp only [List.length_cons, List.length_append, sizeOfRun_cons, size_group, ihinside, ih]
    omega

theorem texts (h : Spells is ts) : textsOfRun is = ts.map Token.text := by
  induction h with
  | nil => rfl
  | token _ _ ih => rw [textsOfRun, Item.texts, ih, List.map_cons, List.singleton_append]
  | group ho hc _ _ ihinside ih =>
    rw [textsOfRun, Item.texts, ihinside, ih, ← Token.text_of_opens ho, ← Token.text_of_closes hc]
    simp

theorem joined (h : Spells is ts) : Item.joined is = joinTexts ts := by
  rw [Item.joined, joinTexts, h.texts]

theorem append (h : Spells is ts) (h' : Spells js us) : Spells (is ++ js) (ts ++ us) := by
  induction h with
  | nil => exact h'
  | token ht _ ih => exact .token ht ih
  | group ho hc hinside _ _ ih =>
    rw [List.cons_append, List.cons_append, List.append_assoc]
    exact .group ho hc hinside ih

theorem of_nil (h : Spells [] ts) : ts = [] := by
  cases h
  rfl

theorem of_token {t : Token} (h : Spells (.token t :: is) ts) :
    ∃ us, ts = t :: us ∧ t.cls ≠ .paren ∧ Spells is us := by
  cases h with
  | token ht h => exact ⟨_, rfl, ht, h⟩

theorem of_group {b : Bracket} {inside : List Item} (h : Spells (.group b inside :: is) ts) :
    ∃ o c inner us, ts = o :: (inner ++ c :: us) ∧ o.opens b = true ∧ c.closes b = true ∧
      Spells inside inner ∧ Spells is us := by
  cases h with
  | group ho hc hinside h => exact ⟨_, _, _, _, rfl, ho, hc, hinside, h⟩

/-- What is seen of an item in its first token. -/
theorem of_cons {i : Item} (h : Spells (i :: is) ts) :
    ∃ t us, ts = t :: us ∧ t.text = i.headText ∧ (∀ word, t.isWord word = i.isWord word) ∧
      (if t.cls == .literal then some (Text.upper t.text) else none) = i.literal? := by
  cases h with
  | token ht h => exact ⟨_, _, rfl, rfl, fun _ ↦ rfl, rfl⟩
  | group ho hc hinside h =>
    have hcls := Token.cls_of_opens ho
    refine ⟨_, _, rfl, Token.text_of_opens ho, fun word ↦ ?_, ?_⟩
    · rw [Token.isWord, hcls]
      rfl
    · rw [hcls]
      rfl

/-- A token that is no bracket is an item by itself. -/
theorem of_cons_token {t : Token} (h : Spells is (t :: ts)) (ht : t.cls ≠ .paren) :
    ∃ js, is = .token t :: js ∧ Spells js ts := by
  cases h with
  | token _ h => exact ⟨_, rfl, h⟩
  | group ho => exact absurd (Token.cls_of_opens ho) ht

/-- An opening bracket starts a group. -/
theorem of_cons_opens {b : Bracket} {o : Token} (h : Spells is (o :: ts)) (ho : o.opens b = true) :
    ∃ inside js, is = .group b inside :: js := by
  cases h with
  | token ht => exact absurd (Token.cls_of_opens ho) ht
  | group ho' =>
    rw [Token.opens_iff_of_opens ho', beq_iff_eq] at ho
    exact ⟨_, _, by rw [ho]⟩

/-- A single token is an item by itself. -/
theorem of_singleton {t : Token} (h : Spells is [t]) : is = [.token t] := by
  have hlength := h.length_eq
  cases is with
  | nil => cases h
  | cons i is =>
    cases i with
    | token u =>
      obtain ⟨us, hus, -, h⟩ := of_token h
      cases hus
      cases h
      rfl
    | group b inside =>
      rw [List.length_singleton, sizeOfRun_cons, size_group] at hlength
      omega

/-- Cutting a run of items cuts the tokens. -/
theorem of_append (h : Spells (is ++ js) ts) :
    ∃ us vs, ts = us ++ vs ∧ Spells is us ∧ Spells js vs := by
  induction is generalizing ts with
  | nil => exact ⟨[], ts, rfl, .nil, h⟩
  | cons i is ih =>
    cases i with
    | token t =>
      obtain ⟨us, rfl, ht, h⟩ := of_token h
      obtain ⟨us, vs, rfl, hus, hvs⟩ := ih h
      exact ⟨t :: us, vs, rfl, .token ht hus, hvs⟩
    | group b inside =>
      obtain ⟨o, c, inner, us, rfl, ho, hc, hinside, h⟩ := of_group h
      obtain ⟨us, vs, rfl, hus, hvs⟩ := ih h
      exact ⟨o :: (inner ++ c :: us), vs, by simp, .group ho hc hinside hus, hvs⟩

theorem isEmpty_eq (h : Spells is ts) : ts.isEmpty = is.isEmpty := by
  cases h <;> rfl

end Spells
end Item

/-! ## Balance -/

namespace Positional

section
variable {b : Bracket} {t o c : Token} {ts : List Token} {stack : List Bracket}

theorem unmatched?_token (ht : t.cls ≠ .paren) :
    unmatched? stack (t :: ts) = unmatched? stack ts := by
  rw [unmatched?, if_neg (by simpa using ht)]

theorem unmatched?_open (ho : o.opens b = true) :
    unmatched? stack (o :: ts) = unmatched? (b :: stack) ts := by
  rw [unmatched?, if_pos (by simp [Token.cls_of_opens ho]), Token.ofOpening?_of_opens ho]

theorem unmatched?_close (hc : c.closes b = true) :
    unmatched? (b :: stack) (c :: ts) = unmatched? stack ts := by
  have hclose : close? c.text (b :: stack) = some stack := by
    rw [close?, Token.text_of_closes hc, if_pos (beq_self_eq_true _)]
  rw [unmatched?, if_pos (by simp [Token.cls_of_closes hc]), Token.ofOpening?_of_closes hc]
  simp only [hclose]

end

end Positional

namespace Item

/-- The tokens of a run leave the open brackets as they were. -/
theorem Spells.unmatched?_append {is : List Item} {ts : List Token} (h : Spells is ts)
    (stack : List Bracket) (us : List Token) :
    Positional.unmatched? stack (ts ++ us) = Positional.unmatched? stack us := by
  induction h generalizing stack us with
  | nil => rfl
  | token ht _ ih => rw [List.cons_append, Positional.unmatched?_token ht, ih]
  | group ho hc _ _ ihinside ih =>
    rw [List.cons_append, Positional.unmatched?_open ho, List.append_assoc, ihinside,
      List.cons_append, Positional.unmatched?_close hc, ih]

theorem Spells.isBalanced {is : List Item} {ts : List Token} (h : Spells is ts) :
    Positional.IsBalanced ts := by
  have := h.unmatched?_append [] []
  rwa [List.append_nil] at this

/-- The tokens of the groups that are open, with what is before them, innermost first. -/
inductive OpenSpells : List Open → List Token → Prop
  | nil : OpenSpells [] []
  | cons {b before stack o ts us} (ho : o.opens b = true) (hbefore : Spells before.reverse us)
      (h : OpenSpells stack ts) : OpenSpells (⟨b, before⟩ :: stack) (ts ++ us ++ [o])

/-- A run is gathered unless it has a bracket without a partner. -/
theorem gatherFrom_eq (source : Source) {stack : List Open} (done : List Item) (ts : List Token)
    {written pre : List Token} (hstack : OpenSpells stack pre)
    (hdone : Spells done.reverse written) :
    (∃ b, Positional.unmatched? (stack.map Open.bracket) ts = some b ∧
      gatherFrom source stack done ts = .error (unmatched source b)) ∨
    ∃ items, Positional.unmatched? (stack.map Open.bracket) ts = none ∧
      gatherFrom source stack done ts = .ok items ∧ Spells items (pre ++ written ++ ts) := by
  fun_induction gatherFrom source stack done ts generalizing pre written with
  | case1 done =>
    cases hstack
    exact .inr ⟨_, rfl, rfl, by simpa using hdone⟩
  | case2 o stack done => exact .inl ⟨_, rfl, rfl⟩
  | case3 stack done t ts hcls b hb ih =>
    have ho : t.opens b = true := Token.opens_of_ofOpening? (by simpa using hcls) hb
    have := ih (.cons ho hdone hstack) .nil
    rw [Positional.unmatched?_open ho]
    simpa using this
  | case4 done t ts hcls hb o stack hclose ih =>
    have hc : t.closes o.bracket = true := by
      rw [beq_iff_eq] at hcls hclose
      rw [Token.closes, hcls, hclose, beq_self_eq_true, beq_self_eq_true, Bool.and_self]
    rw [List.map_cons, Positional.unmatched?_close hc]
    cases hstack with
    | @cons b before _ opening _ us ho hbefore hstack =>
      have hgroup : Spells (group b done.reverse :: before).reverse
          (us ++ opening :: (written ++ [t])) := by
        rw [List.reverse_cons]
        exact hbefore.append (.group ho hc hdone .nil)
      simpa using ih hstack hgroup
  | case5 done t ts hcls hb o stack hclose =>
    refine .inl ⟨t.text, ?_, rfl⟩
    have hnone : Positional.close? t.text ((o :: stack).map Open.bracket) = none := if_neg hclose
    rw [Positional.unmatched?, if_pos hcls, hb]
    simp only [hnone]
  | case6 done t ts hcls hb =>
    refine .inl ⟨t.text, ?_, rfl⟩
    rw [List.map_nil, Positional.unmatched?, if_pos hcls, hb]
    rfl
  | case7 stack done t ts hcls ih =>
    have ht : t.cls ≠ .paren := by simpa using hcls
    rw [Positional.unmatched?_token ht]
    have htoken : Spells (token t :: done).reverse (written ++ [t]) := by
      rw [List.reverse_cons]
      exact hdone.append (.token ht .nil)
    simpa using ih hstack htoken

end Item

/-- A run is balanced just if it is what some items stand for. -/
theorem Positional.IsBalanced.exists_spells {run : List Token} (h : IsBalanced run) :
    ∃ items, Item.Spells items run := by
  obtain ⟨b, hb, -⟩ | ⟨items, -, -, hitems⟩ :=
    Item.gatherFrom_eq ⟨none, ""⟩ [] run .nil .nil
  · rw [IsBalanced] at h
    rw [List.map_nil, h] at hb
    cases hb
  · exact ⟨items, hitems⟩

/-! ## Counting and searching -/

namespace Positional

section
variable {b : Bracket} {t o c : Token} {ts : List Token} {depth k : Nat}

theorem outsideFrom_open (ho : o.opens b = true) :
    outsideFrom depth k (o :: ts) = outsideFrom (depth + 1) (k + 1) ts := by
  rw [outsideFrom, if_pos (by simp [Token.cls_of_opens ho]), if_pos (Token.isOpening_of_opens ho)]

theorem outsideFrom_close (hc : c.closes b = true) :
    outsideFrom (depth + 1) k (c :: ts) = outsideFrom depth (k + 1) ts := by
  rw [outsideFrom, if_pos (by simp [Token.cls_of_closes hc]),
    if_neg (by simp [Token.isOpening_of_closes hc]), if_neg (by omega), Nat.add_sub_cancel]

theorem outsideFrom_token (ht : t.cls ≠ .paren) :
    outsideFrom 0 k (t :: ts) = (outsideFrom 0 (k + 1) ts).map ((k, t) :: ·) := by
  rw [outsideFrom, if_neg (by simpa using ht), if_pos rfl]
  cases outsideFrom 0 (k + 1) ts <;> rfl

theorem outsideFrom_inside (ht : t.cls ≠ .paren) :
    outsideFrom (depth + 1) k (t :: ts) = outsideFrom (depth + 1) (k + 1) ts := by
  rw [outsideFrom, if_neg (by simpa using ht), if_neg (by omega)]

theorem closeFrom_open (ho : o.opens b = true) :
    closeFrom depth k (o :: ts) = closeFrom (depth + 1) (k + 1) ts := by
  rw [closeFrom, if_pos (by simp [Token.cls_of_opens ho]), if_pos (Token.isOpening_of_opens ho)]

theorem closeFrom_close (hc : c.closes b = true) :
    closeFrom (depth + 2) k (c :: ts) = closeFrom (depth + 1) (k + 1) ts := by
  rw [closeFrom, if_pos (by simp [Token.cls_of_closes hc]),
    if_neg (by simp [Token.isOpening_of_closes hc]), if_neg (by omega), if_neg (by omega)]
  rfl

theorem closeFrom_last (hc : c.closes b = true) : closeFrom 1 k (c :: ts) = .ok k := by
  rw [closeFrom, if_pos (by simp [Token.cls_of_closes hc]),
    if_neg (by simp [Token.isOpening_of_closes hc]), if_neg (by omega), if_pos rfl]

theorem closeFrom_token (ht : t.cls ≠ .paren) :
    closeFrom depth k (t :: ts) = closeFrom depth (k + 1) ts := by
  rw [closeFrom, if_neg (by simpa using ht)]

end

/-- The tokens among the items of a run with their positions, the first of which is `k`. -/
def tops : Nat → List Item → List (Nat × Token)
  | _, [] => []
  | k, .token t :: is => (k, t) :: tops (k + 1) is
  | k, .group b inside :: is => tops (k + (Item.group b inside).size) is

end Positional

namespace Item.Spells

open Positional

variable {is : List Item} {ts us : List Token}

/-- Counting goes through the tokens of a run as deep as it entered them. -/
theorem outsideFrom_inside (h : Spells is ts) (depth k : Nat) :
    outsideFrom (depth + 1) k (ts ++ us) = outsideFrom (depth + 1) (k + sizeOfRun is) us := by
  induction h generalizing depth k us with
  | nil => rfl
  | token ht _ ih =>
    rw [List.cons_append, Positional.outsideFrom_inside ht, ih, sizeOfRun_cons, size_token]
    congr 1
    omega
  | group ho hc _ _ ihinside ih =>
    rw [List.cons_append, outsideFrom_open ho, List.append_assoc, ihinside, List.cons_append,
      outsideFrom_close hc, ih, sizeOfRun_cons, size_group]
    congr 1
    omega

/-- Outside of brackets are just the tokens among the items. -/
theorem outsideFrom (h : Spells is ts) (k : Nat) : outsideFrom 0 k ts = .ok (tops k is) := by
  induction h generalizing k with
  | nil => rfl
  | token ht _ ih =>
    rw [outsideFrom_token ht, ih]
    rfl
  | group ho hc hinside _ _ ih =>
    rw [outsideFrom_open ho, hinside.outsideFrom_inside, outsideFrom_close hc, ih, tops, size_group]
    congr 2
    omega

theorem outside (h : Spells is ts) : outside ts = .ok (tops 0 is) :=
  h.outsideFrom 0

/-- The search for a partner goes through the tokens of a run as deep as it entered them. -/
theorem closeFrom (h : Spells is ts) (depth k : Nat) :
    closeFrom (depth + 1) k (ts ++ us) = closeFrom (depth + 1) (k + sizeOfRun is) us := by
  induction h generalizing depth k us with
  | nil => rfl
  | token ht _ ih =>
    rw [List.cons_append, closeFrom_token ht, ih, sizeOfRun_cons, size_token]
    congr 1
    omega
  | group ho hc _ _ ihinside ih =>
    rw [List.cons_append, closeFrom_open ho, List.append_assoc, ihinside, List.cons_append,
      closeFrom_close hc, ih, sizeOfRun_cons, size_group]
    congr 1
    omega

/-- The partner of a bracket is behind the items between them. -/
theorem matchingClose {b : Bracket} {inside : List Item} {tokens inner post : List Token}
    {o c : Token} {k : Nat} (ho : o.opens b = true) (hc : c.closes b = true)
    (h : Spells inside inner) (pre : List Token) (heq : tokens = pre ++ o :: (inner ++ c :: post))
    (hk : k = pre.length) : matchingClose tokens k = .ok (k + 1 + inner.length) := by
  rw [Positional.matchingClose, heq, hk, List.drop_left, closeFrom_open ho, h.closeFrom,
    closeFrom_last hc, h.length_eq]

/-- By induction on the items.  Each opening bracket of a run belongs to a group. -/
theorem exists_group (h : Spells is ts) {b : Bracket} {pre post : List Token} {o : Token}
    (heq : ts = pre ++ o :: post) (ho : o.opens b = true) :
    ∃ inside inner c us, post = inner ++ c :: us ∧ c.closes b = true ∧ Spells inside inner := by
  induction h generalizing pre post with
  | nil => cases pre <;> cases heq
  | token ht _ ih =>
    cases pre with
    | nil =>
      cases heq
      exact absurd (Token.cls_of_opens ho) ht
    | cons p pre => exact ih (List.cons.inj heq).2
  | @group b' inside is o' c inner us ho' hc hinside _ ihinside ih =>
    have hne : o ≠ c := by
      rintro rfl
      have hopening := Token.isOpening_of_opens ho
      rw [Token.isOpening_of_closes hc] at hopening
      cases hopening
    cases pre with
    | nil =>
      cases heq
      rw [Token.opens_iff_of_opens ho', beq_iff_eq] at ho
      exact ⟨inside, inner, c, us, rfl, ho ▸ hc, hinside⟩
    | cons p pre =>
      obtain ⟨x, -, hrest⟩ | ⟨x, hinner, hrest⟩ :=
        List.append_eq_append_iff.1 (List.cons.inj heq).2
      · cases x with
        | nil => exact absurd (List.cons.inj hrest).1.symm hne
        | cons x xs => exact ih (List.cons.inj hrest).2
      · cases x with
        | nil => exact absurd (List.cons.inj hrest).1 hne
        | cons x xs =>
          obtain ⟨rfl, rfl⟩ := List.cons.inj hrest
          obtain ⟨within, run, c', vs, rfl, hc', hwithin⟩ := ihinside hinner
          exact ⟨within, run, c', vs ++ c :: us, by simp, hc', hwithin⟩

end Item.Spells

/-! ## Wrapped runs -/

/-- Whether a run is a group of the kind. -/
def Item.isGroup (b : Bracket) : List Item → Bool
  | [.group b' _] => b' == b
  | _ => false

theorem Item.isGroup_iff {b : Bracket} {items : List Item} :
    isGroup b items = true ↔ ∃ inside, items = [.group b inside] := by
  constructor
  · intro h
    rw [isGroup.eq_def] at h
    split at h
    · exact ⟨_, by rw [beq_iff_eq.1 h]⟩
    · cases h
  · rintro ⟨inside, rfl⟩
    exact beq_self_eq_true b

theorem opensRound_cons_iff {i : Item} {is : List Item} :
    opensRound (i :: is) = true ↔ ∃ inside, i = .group .round inside := by
  constructor
  · intro h
    rw [opensRound.eq_def] at h
    split at h
    · rename_i inside _ heq
      exact ⟨inside, (List.cons.inj heq).1⟩
    · cases h
  · rintro ⟨inside, rfl⟩
    rfl

namespace Item.Spells

open Positional

variable {b : Bracket} {is inside : List Item} {ts : List Token}

theorem isWrapped (h : Spells is ts) (b : Bracket) : isWrapped b ts = .ok (isGroup b is) := by
  cases h with
  | nil => rfl
  | @token t is ts ht h =>
    have hopens : t.opens b = false := by
      rw [Token.opens, beq_eq_false_iff_ne.2 ht, Bool.false_and]
    rw [Positional.isWrapped]
    split
    · rfl
    · change (if !t.opens b then _ else _) = _
      rw [hopens]
      rfl
  | @group b' inside is o c inner us ho hc hinside h =>
    have hlength : ¬ (o :: (inner ++ c :: us)).length < 2 := by simp
    have hclose : Positional.matchingClose (o :: (inner ++ c :: us)) 0 = _ :=
      hinside.matchingClose ho hc [] rfl rfl
    rw [Nat.zero_add] at hclose
    rw [Positional.isWrapped, if_neg hlength]
    change (if !o.opens b then _ else _) = _
    rw [Token.opens_iff_of_opens ho]
    by_cases hb : b = b'
    · rw [hb, beq_self_eq_true, Bool.not_true, if_neg Bool.false_ne_true, hclose]
      change Except.ok (1 + inner.length == (o :: (inner ++ c :: us)).length - 1) = _
      cases is with
      | nil =>
        rw [h.of_nil]
        simp [isGroup, Nat.add_comm]
      | cons i is =>
        have hpos := i.size_pos
        have hus := h.length_eq
        rw [sizeOfRun_cons] at hus
        simp [isGroup]
        omega
    · rw [beq_eq_false_iff_ne.2 hb]
      cases is with
      | nil => rw [isGroup, beq_eq_false_iff_ne.2 (Ne.symm hb)]; rfl
      | cons => rfl

theorem inner_infix (tokens : List Token) : Positional.inner tokens <:+: tokens :=
  (List.dropLast_prefix _).isInfix.trans (List.tail_suffix tokens).isInfix

theorem opensRound (h : Spells is ts) :
    Positional.opensRound ts = LineBasic.opensRound is := by
  cases h with
  | nil => rfl
  | @token t is ts ht h =>
    have hopens : t.opens .round = false := by
      rw [Token.opens, beq_eq_false_iff_ne.2 ht, Bool.false_and]
    exact hopens
  | @group b inside is o c inner us ho =>
    change o.opens .round = _
    rw [Token.opens_iff_of_opens ho]
    cases b <;> rfl

/-- What is inside a group. -/
theorem inner (h : Spells [.group b inside] ts) : Spells inside (inner ts) := by
  obtain ⟨o, c, inner, us, rfl, -, -, hinside, h⟩ := h.of_group
  rw [h.of_nil, Positional.inner, List.tail_cons, List.dropLast_concat]
  exact hinside

theorem length_inner_lt (h : Spells [.group b inside] ts) :
    (Positional.inner ts).length < ts.length := by
  rw [h.inner.length_eq, h.length_eq, sizeOfRun_cons, size_group]
  omega

end Item.Spells

/-! ## Positions -/

namespace Positional

section
variable {tokens w rest : List Token} {t : Token} {j k : Nat}

theorem tokenAt_of_eq (done : List Token) (h : tokens = done ++ t :: rest) (hk : k = done.length) :
    tokenAt tokens k = .ok t := by
  rw [tokenAt, h, hk]
  simp

theorem drop_of_eq (done : List Token) (h : tokens = done ++ rest) (hk : k = done.length) :
    tokens.drop k = rest := by
  rw [h, hk, List.drop_left]

theorem slice_of_eq (done : List Token) (h : tokens = done ++ (w ++ rest)) (hj : j = done.length)
    (hk : k = done.length + w.length) : slice tokens j k = w := by
  rw [slice, h, hj, hk, ← List.append_assoc, ← List.length_append, List.take_left, List.drop_left]

end

theorem slice_infix (tokens : List Token) (start stop : Nat) :
    slice tokens start stop <:+: tokens :=
  ((List.drop_suffix start _).isInfix).trans (List.take_prefix stop tokens).isInfix

/-- A run where no bracket closes that was not opened, and where every opening bracket has its
partner, of the same kind and with a balanced run between them. -/
structure IsSearchable (run : List Token) : Prop where
  outside : ∃ sites, outside run = .ok sites
  matchingClose {b : Bracket} {o : Token} {k : Nat} (hk : run[k]? = some o)
    (ho : o.opens b = true) : ∃ j c, matchingClose run k = .ok j ∧ k < j ∧ run[j]? = some c ∧
      c.closes b = true ∧ IsBalanced (slice run (k + 1) j)

theorem IsBalanced.isSearchable {run : List Token} (h : IsBalanced run) : IsSearchable run := by
  obtain ⟨items, hitems⟩ := h.exists_spells
  refine ⟨⟨_, hitems.outside⟩, fun {b o k} hk ho ↦ ?_⟩
  obtain ⟨pre, post, rfl, rfl⟩ : ∃ pre post, run = pre ++ o :: post ∧ k = pre.length := by
    obtain ⟨hlt, hget⟩ := List.getElem?_eq_some_iff.1 hk
    refine ⟨run.take k, run.drop (k + 1), ?_, (List.length_take_of_le (Nat.le_of_lt hlt)).symm⟩
    rw [← hget, ← List.drop_eq_getElem_cons hlt, List.take_append_drop]
  obtain ⟨inside, inner, c, us, rfl, hc, hinside⟩ := hitems.exists_group rfl ho
  have hslice : slice (pre ++ o :: (inner ++ c :: us)) (pre.length + 1)
      (pre.length + 1 + inner.length) = inner := by
    have hwhole : pre ++ o :: (inner ++ c :: us) = pre ++ [o] ++ (inner ++ c :: us) := by simp
    exact slice_of_eq (pre ++ [o]) hwhole (by simp) (by simp)
  refine ⟨_, c, hinside.matchingClose ho hc pre rfl rfl, by omega, ?_, hc, ?_⟩
  · simp [Nat.add_assoc, Nat.add_comm 1]
  · rw [hslice]
    exact hinside.isBalanced

end Positional

/-! ## Cutting -/

namespace Positional

theorem infix_of_mem_pieces {tokens piece : List Token} {start : Nat} {cuts : List Nat}
    (h : piece ∈ pieces tokens start cuts) : piece <:+: tokens := by
  induction cuts generalizing start with
  | nil =>
    rw [List.mem_singleton.1 h]
    exact (List.drop_suffix start tokens).isInfix
  | cons k cuts ih =>
    rcases List.mem_cons.1 h with rfl | h
    · exact slice_infix tokens start k
    · exact ih h

end Positional

namespace Item.Spells

open Positional

variable {is : List Item} {ts : List Token}

/-- Cutting a run of tokens at positions cuts the items.  Behind the tokens that are done with come
those of the piece that is being read. -/
theorem pieces (h : Spells is ts) (cls : TokenClass) (done w : List Token)
    {ws : List Item} (hw : Spells ws w) :
    let found := (tops (done.length + w.length) is).filter (·.2.cls == cls)
    ∃ p ps, Item.cutAt (·.isClass cls) is = (p :: ps, found.map fun top ↦ .token top.2) ∧
      List.Forall₂ Spells ((ws ++ p) :: ps)
        (pieces (done ++ w ++ ts) done.length (found.map Prod.fst)) := by
  induction h generalizing done w ws with
  | nil =>
    refine ⟨[], [], rfl, ?_⟩
    simpa [Positional.pieces, tops] using hw
  | @token t is ts ht _ ih =>
    by_cases hcls : t.cls = cls
    · obtain ⟨p, ps, hcut, hpieces⟩ := ih (done ++ w ++ [t]) [] .nil
      refine ⟨[], p :: ps, ?_, ?_⟩
      · simp_all [Item.cutAt, isClass, tops, Nat.add_assoc]
      · have hslice := slice_of_eq done (List.append_assoc done w (t :: ts)) rfl rfl
        simp_all [tops, Positional.pieces, Nat.add_assoc]
    · obtain ⟨p, ps, hcut, hpieces⟩ := ih done (w ++ [t]) (hw.append (.token ht .nil))
      refine ⟨.token t :: p, ps, ?_, ?_⟩
      · simp_all [Item.cutAt, isClass, tops, Nat.add_assoc]
      · simp_all [tops, Nat.add_assoc]
  | @group b inside is o c inner us ho hc hinside _ _ ih =>
    obtain ⟨p, ps, hcut, hpieces⟩ :=
      ih done (w ++ (o :: (inner ++ [c]))) (hw.append (.group ho hc hinside .nil))
    have hlength : w.length + (inner.length + 1 + 1) = w.length + (2 + sizeOfRun inside) := by
      rw [hinside.length_eq]
      omega
    refine ⟨.group b inside :: p, ps, ?_, ?_⟩
    · simp_all [Item.cutAt, isClass, tops, Nat.add_assoc]
    · simp_all [tops, Nat.add_assoc]

theorem cutAt (cls : TokenClass) (h : Spells is ts) :
    ∃ ps cuts, Positional.cutAt cls ts = .ok (ps, cuts) ∧
      List.Forall₂ Spells (Item.cutAt (·.isClass cls) is).1 ps ∧
      (Item.cutAt (·.isClass cls) is).2 = cuts.map .token ∧ ∀ p ∈ ps, p <:+: ts := by
  obtain ⟨p, ps, hcut, hpieces⟩ := h.pieces cls [] [] .nil
  refine ⟨_, _, by rw [Positional.cutAt, h.outside]; rfl, ?_, ?_, fun p hp ↦ infix_of_mem_pieces hp⟩
  · rw [hcut]
    exact hpieces
  · rw [hcut, List.map_map]
    rfl

theorem separated (h : Spells is ts) : ∃ ps,
    Positional.separated ts = .ok (ps, (LineBasic.separated is).2) ∧
      List.Forall₂ Spells (LineBasic.separated is).1 ps ∧ ∀ p ∈ ps, p <:+: ts := by
  obtain ⟨ps, cuts, hcut, hpieces, hcuts, hinfix⟩ := h.cutAt .separator
  have hseparators : (LineBasic.separated is).2 = (Item.cutAt (·.isClass .separator) is).2.map
      fun i ↦ if i.headText == "," then .comma else .semicolon := rfl
  refine ⟨ps, ?_, hpieces, hinfix⟩
  rw [Positional.separated, hcut, hseparators, hcuts, List.map_map]
  rfl

end Item.Spells

namespace Positional

/-- Tokens from a later position on do not stand at the first one. -/
theorem filter_tops {k : Nat} (hk : 0 < k) (is : List Item) :
    (tops k is).filter (·.1 != 0) = tops k is := by
  induction is generalizing k with
  | nil => rfl
  | cons i is ih =>
    cases i with
    | token t =>
      rw [tops, List.filter_cons_of_pos (by simpa using Nat.ne_of_gt hk), ih (Nat.succ_pos k)]
    | group b inside => rw [tops, ih (Nat.lt_of_lt_of_le hk (Nat.le_add_right _ _))]

end Positional

theorem Item.Spells.length_group {b : Bracket} {inside : List Item} {inner us : List Token}
    {o c : Token} (h : Spells inside inner) :
    (o :: (inner ++ c :: us)).length = (Item.group b inside).size + us.length := by
  rw [List.length_cons, List.length_append, List.length_cons, h.length_eq, size_group]
  omega

/-- How a run of tokens is cut at a token among its items. -/
structure Item.Spells.IsCutAt (ts : List Token) (before : List Item) (t : Token)
    (after : List Item) (us vs : List Token) : Prop where
  eq : ts = us ++ t :: vs
  before : Spells before us
  after : Spells after vs

namespace Item.Spells

open Positional

variable {is before after : List Item} {ts : List Token}

theorem IsCutAt.cons_token {t u : Token} {us vs : List Token}
    (h : IsCutAt ts before t after us vs) (hu : u.cls ≠ .paren) :
    IsCutAt (u :: ts) (.token u :: before) t after (u :: us) vs :=
  ⟨by rw [h.eq, List.cons_append], .token hu h.before, h.after⟩

theorem IsCutAt.cons_group {t o c : Token} {b : Bracket} {inside : List Item}
    {us vs inner : List Token} (h : IsCutAt ts before t after us vs) (ho : o.opens b = true)
    (hc : c.closes b = true) (hinside : Spells inside inner) :
    IsCutAt (o :: (inner ++ c :: ts)) (.group b inside :: before) t after
      (o :: (inner ++ c :: us)) vs :=
  ⟨by simp [h.eq], .group ho hc hinside h.before, h.after⟩

/-- A run is cut at the first of its tokens that passes a test, if there is one. -/
theorem first?_cases (h : Spells is ts) (test : Item → Bool) (p : Token → Bool)
    (htoken : ∀ t, test (.token t) = p t) (hgroup : ∀ b inside, test (.group b inside) = false)
    (k : Nat) :
    cutFirst? test is = none ∧ first? p (tops k is) = none ∨
    ∃ before t after us vs, cutFirst? test is = some (before, .token t, after) ∧
      IsCutAt ts before t after us vs ∧
      first? p (tops k is) = some (k + us.length, t, tops (k + us.length + 1) after) := by
  induction h generalizing k with
  | nil => exact .inl ⟨rfl, rfl⟩
  | @token t is ts ht h ih =>
    rw [cutFirst?, tops, first?, htoken]
    by_cases hp : p t = true
    · rw [if_pos hp, if_pos hp]
      exact .inr ⟨[], t, is, [], ts, rfl, ⟨rfl, .nil, h⟩, rfl⟩
    · rw [if_neg hp, if_neg hp]
      obtain ⟨hcut, hfirst⟩ | ⟨before, u, after, us, vs, hcut, hat, hfirst⟩ := ih (k + 1)
      · exact .inl ⟨by rw [hcut]; rfl, hfirst⟩
      · refine .inr ⟨.token t :: before, u, after, t :: us, vs, by rw [hcut]; rfl,
          hat.cons_token ht, ?_⟩
        rw [hfirst, List.length_cons, Nat.add_assoc k 1, Nat.add_comm 1]
  | @group b inside is o c inner ts ho hc hinside h _ ih =>
    rw [cutFirst?, if_neg (by simp [hgroup]), tops]
    obtain ⟨hcut, hfirst⟩ | ⟨before, u, after, us, vs, hcut, hat, hfirst⟩ := ih _
    · exact .inl ⟨by rw [hcut]; rfl, hfirst⟩
    · refine .inr ⟨_, u, after, _, vs, by rw [hcut]; rfl, hat.cons_group ho hc hinside, ?_⟩
      rw [hfirst, length_group hinside, Nat.add_assoc]

/-- A run is cut at the `ELSE` for which no `IF` is open, if there is one. -/
theorem else?_cases (h : Spells is ts) (n k : Nat) :
    cutElse? n is = none ∧ else? n (tops k is) = none ∨
    ∃ before t after us vs, cutElse? n is = some (before, after) ∧
      IsCutAt ts before t after us vs ∧ else? n (tops k is) = some (k + us.length) := by
  induction h generalizing n k with
  | nil => exact .inl ⟨rfl, rfl⟩
  | @token t is ts ht h ih =>
    have hpast (m : Nat) :
        (cutElse? m is).map (fun p ↦ (Item.token t :: p.1, p.2)) = none ∧
          else? m (tops (k + 1) is) = none ∨
        ∃ before u after us vs,
          (cutElse? m is).map (fun p ↦ (Item.token t :: p.1, p.2)) = some (before, after) ∧
            IsCutAt (t :: ts) before u after us vs ∧
            else? m (tops (k + 1) is) = some (k + us.length) := by
      obtain ⟨hcut, helse⟩ | ⟨before, u, after, us, vs, hcut, hat, helse⟩ := ih m (k + 1)
      · exact .inl ⟨by rw [hcut]; rfl, helse⟩
      · refine .inr ⟨.token t :: before, u, after, t :: us, vs, by rw [hcut]; rfl,
          hat.cons_token ht, ?_⟩
        rw [helse, List.length_cons, Nat.add_assoc, Nat.add_comm 1]
    rw [cutElse?, tops, else?, isWord, isWord]
    by_cases hif : t.isWord "IF" = true
    · rw [if_pos hif, if_pos hif]
      exact hpast (n + 1)
    rw [if_neg hif, if_neg hif]
    by_cases helse : t.isWord "ELSE" = true
    · rw [if_pos helse, if_pos helse]
      by_cases hn : n = 0
      · rw [if_pos hn, if_pos hn]
        exact .inr ⟨[], t, is, [], ts, rfl, ⟨rfl, .nil, h⟩, rfl⟩
      · rw [if_neg hn, if_neg hn]
        exact hpast (n - 1)
    · rw [if_neg helse, if_neg helse]
      exact hpast n
  | @group b inside is o c inner ts ho hc hinside h _ ih =>
    rw [cutElse?, if_neg (by simp [isWord]), if_neg (by simp [isWord]), tops]
    obtain ⟨hcut, helse⟩ | ⟨before, u, after, us, vs, hcut, hat, helse⟩ := ih n _
    · exact .inl ⟨by rw [hcut]; rfl, helse⟩
    · refine .inr ⟨_, u, after, _, vs, by rw [hcut]; rfl, hat.cons_group ho hc hinside, ?_⟩
      rw [helse, length_group hinside, Nat.add_assoc]

end Item.Spells

/-! ## The loosest operator -/

theorem Operator.precedence_pos (op : Operator) : 0 < op.precedence := by
  cases op <;> decide

theorem exists_token_of_mem_operatorSites {k : Nat} {ready : Bool} {items : List Item}
    {site : Nat × Operator} (h : site ∈ operatorSites k ready items) :
    ∃ j t, site.1 = k + j ∧ items[j]? = some (.token t) := by
  induction items generalizing k ready with
  | nil => cases h
  | cons i is ih =>
    have hrest : site ∈ operatorSites (k + 1) i.endsOperand is →
        ∃ j t, site.1 = k + j ∧ (i :: is)[j]? = some (.token t) := by
      intro h
      obtain ⟨j, t, hj, ht⟩ := ih h
      exact ⟨j + 1, t, by omega, ht⟩
    rw [operatorSites] at h
    split at h
    · rename_i hop
      rcases List.mem_cons.1 h with rfl | h
      · cases i with
        | token t => exact ⟨0, t, rfl, rfl⟩
        | group b inside => simp [Item.operator?] at hop
      · exact hrest h
    · exact hrest h

/-- A run is split at a token among its items. -/
theorem exists_token_of_topOperator? {items : List Item} {site : Nat × Operator}
    (h : topOperator? items = some site) :
    ∃ t, items = items.take site.1 ++ .token t :: items.drop (site.1 + 1) := by
  obtain ⟨j, t, hj, ht⟩ := exists_token_of_mem_operatorSites (mem_operatorSites_of_topOperator? h)
  rw [Nat.zero_add] at hj
  rw [← hj] at ht
  obtain ⟨hlt, ht⟩ := List.getElem?_eq_some_iff.1 ht
  refine ⟨t, ?_⟩
  rw [← ht, ← List.drop_eq_getElem_cons hlt, List.take_append_drop]

namespace Positional

theorem best_some (found site : Nat × Operator) :
    best (some found) site = some (looser found site) :=
  (apply_ite some _ site found).symm

theorem best_none (site : Nat × Operator) : best none site = some site :=
  if_pos (.inl (Operator.precedence_pos site.2))

/-- The loosest operator is found site by site. -/
theorem foldl_best (sites : List (Nat × Operator)) : sites.foldl best none = loosest? sites := by
  cases sites with
  | nil => rfl
  | cons site sites =>
    rw [List.foldl_cons, best_none, loosest?]
    induction sites generalizing site with
    | nil => rfl
    | cons other sites ih => rw [List.foldl_cons, best_some, ih, List.foldl_cons]

/-- Which site is the loosest does not depend on where they are. -/
theorem loosest?_map (f : Nat → Nat) (sites : List (Nat × Operator)) :
    loosest? (sites.map (Prod.map f id)) = (loosest? sites).map (Prod.map f id) := by
  have hlooser (a b : Nat × Operator) :
      looser (Prod.map f id a) (Prod.map f id b) = Prod.map f id (looser a b) := by
    rw [looser, looser]
    split
    · rename_i h
      exact (if_pos h).symm ▸ rfl
    · rename_i h
      exact (if_neg h).symm ▸ rfl
  cases sites with
  | nil => rfl
  | cons site sites =>
    rw [List.map_cons, loosest?, loosest?, Option.map_some, Option.some.injEq]
    induction sites generalizing site with
    | nil => rfl
    | cons other sites ih =>
      rw [List.map_cons, List.foldl_cons, hlooser, ih, List.foldl_cons]

end Positional

namespace Item.Spells

open Positional

variable {is done : List Item} {ts pre : List Token}

/-- The last token of a run ends an operand if the last item does. -/
theorem endsOperand_last (h : Spells done pre) (hpre : pre ≠ []) :
    ∃ before last, pre = before ++ [last] ∧
      last.endsOperand = done.getLast?.all Item.endsOperand := by
  obtain rfl | ⟨start, i, rfl⟩ := List.eq_nil_or_concat done
  · exact absurd h.of_nil hpre
  rw [List.concat_eq_append] at h ⊢
  obtain ⟨us, vs, rfl, -, hlast⟩ := h.of_append
  rw [List.getLast?_append_cons, List.getLast?_singleton, Option.all_some]
  cases i with
  | token t =>
    obtain ⟨ws, rfl, ht, hws⟩ := hlast.of_token
    refine ⟨us, t, by rw [hws.of_nil], ?_⟩
    rw [Token.endsOperand, Item.endsOperand]
    split <;> simp_all
  | group b inside =>
    obtain ⟨o, c, inner, ws, rfl, -, hc, -, hws⟩ := hlast.of_group
    refine ⟨us ++ o :: inner, c, by rw [hws.of_nil]; simp, ?_⟩
    rw [Token.endsOperand, Token.cls_of_closes hc, Token.text_of_closes hc, Item.endsOperand]
    cases b <;> decide

/-- Whether an expression may be split at a token behind some items. -/
theorem site?_eq (h : Spells done pre) (t : Token) :
    site? (pre ++ t :: ts) pre.length t = .ok
      ((if done.getLast?.all Item.endsOperand then (Item.token t).operator? else none).map
        ((pre.length, ·))) := by
  rw [site?, Item.operator?]
  by_cases hcls : t.cls = .operator
  · have hne : ¬ (t.cls != .operator) = true := by simpa using hcls
    have heq : (t.cls == .operator) = true := by simpa using hcls
    rw [if_neg hne, if_pos heq]
    cases hop : Operator.ofText? t.text with
    | none =>
      rw [ite_self]
      rfl
    | some op =>
      by_cases hpre : pre = []
      · subst hpre
        cases h
        rfl
      · obtain ⟨before, last, hlast, hends⟩ := h.endsOperand_last hpre
        have hlength : pre.length - 1 = before.length := by rw [hlast]; simp
        have hat : tokenAt (pre ++ t :: ts) (pre.length - 1) = .ok last := by
          rw [hlength, tokenAt, hlast]
          simp
        have hpos : pre.length ≠ 0 := by simpa using hpre
        simp only [if_neg hpos, hat, ← hends]
        change Except.ok (if last.endsOperand then some (pre.length, op) else none) = _
        split <;> rfl
  · have hne : (t.cls != .operator) = true := by simpa using hcls
    have hne' : ¬ (t.cls == .operator) = true := by simpa using hcls
    rw [if_pos hne, if_neg hne', ite_self]
    rfl

theorem foldlM_sites (hdone : Spells done pre) (h : Spells is ts)
    (found : Option (Nat × Operator)) :
    (tops pre.length is).foldlM (fun found top ↦ do
      match ← site? (pre ++ ts) top.1 top.2 with
      | some site => return best found site
      | none => return found) found =
    (.ok (((operatorSites done.length (done.getLast?.all Item.endsOperand) is).map
      (Prod.map (fun k ↦ sizeOfRun ((done ++ is).take k)) id)).foldl best found) :
        Except Slip (Option (Nat × Operator))) := by
  induction h generalizing done pre found with
  | nil => rfl
  | @token t is ts ht h ih =>
    have ih := ih (hdone.append (.token ht .nil))
    rw [List.append_assoc, List.append_assoc, List.length_append, List.length_append,
      List.getLast?_append_cons] at ih
    have htake : sizeOfRun ((done ++ .token t :: is).take done.length) = pre.length := by
      rw [List.take_left, hdone.length_eq]
    rw [tops, List.foldlM_cons, site?_eq hdone, operatorSites]
    cases (if done.getLast?.all Item.endsOperand then (Item.token t).operator? else none) with
    | none => exact ih found
    | some op =>
      rw [List.map_cons, List.foldl_cons, Prod.map_apply, htake]
      exact ih (best found (pre.length, op))
  | @group b inside is o c inner ts ho hc hinside h _ ih =>
    have ih := ih (hdone.append (.group ho hc hinside .nil))
    rw [List.append_assoc, List.append_assoc, List.length_append, List.length_append,
      List.getLast?_append_cons, length_group hinside, List.length_nil, Nat.add_zero,
      List.cons_append, List.append_assoc] at ih
    rw [tops, operatorSites, Item.operator?, ite_self]
    exact ih found

/-- Tokens and items are split at the same operator. -/
theorem topOperator? (h : Spells is ts) : Positional.topOperator? ts =
    .ok ((LineBasic.topOperator? is).map (Prod.map (fun k ↦ sizeOfRun (is.take k)) id)) := by
  have hsites := foldlM_sites .nil h none
  rw [Positional.topOperator?, h.outside, LineBasic.topOperator?, ← loosest?_map, ← foldl_best]
  exact hsites

end Item.Spells

end LineBasic
