import LineBasic.Proofs.Tree.Induction
import LineBasic.Proofs.Tree.Rejection

/-!
# Other quoted texts

What reads the items of a line sees no quoted text.  With other quoted texts, items are operands,
operators and words as before, and runs of items are cut at the same places.

* `Token.requote`, `Item.requote`, `Tree.requote` — other quoted texts.
* `Item.topOperator?_requoteRun`, `Item.cutFirst?_requoteRun`, `Item.cutElse?_requoteRun`,
  `Item.separated_requoteRun` — where runs are cut.
-/

set_option autoImplicit false
namespace LineBasic

/-! ## Tokens, items and trees -/

/-- A token with another text, if it is quoted. -/
def Token.requote (f : String → String) (t : Token) : Token :=
  if t.cls = .quoted then { t with text := f t.text } else t

namespace Item

mutual

/-- An item with other quoted texts. -/
def requote (f : String → String) : Item → Item
  | token t => token (t.requote f)
  | group bracket inside => group bracket (requoteRun f inside)

/-- A run of items with other quoted texts. -/
def requoteRun (f : String → String) : List Item → List Item
  | [] => []
  | i :: is => i.requote f :: requoteRun f is

end

end Item

namespace Tree

mutual

/-- A tree with other texts. -/
def requote (f : String → String) : Tree → Tree
  | .string s => .string (f s)
  | .unary op operand => .unary op (requote f operand)
  | .binary op left right => .binary op (requote f left) (requote f right)
  | .call name args separators => .call name (requoteAll f args) separators
  | .apply callee args separators => .apply (requote f callee) (requoteAll f args) separators
  | .array elements => .array (requoteAll f elements)
  | .lambda names body => .lambda names (requote f body)
  | .branch condition yes no => .branch (requote f condition) (requote f yes) (requoteElse f no)
  | .select kind test targets => .select kind (requote f test) (requoteAll f targets)
  | .define name names body => .define name names (requote f body)
  | t => t

/-- Several trees with other texts. -/
def requoteAll (f : String → String) : List Tree → List Tree
  | [] => []
  | t :: ts => requote f t :: requoteAll f ts

/-- The other branch of a conditional with other texts. -/
def requoteElse (f : String → String) : Option Tree → Option Tree
  | none => none
  | some t => some (requote f t)

end

variable {f : String → String}

theorem requoteAll_eq_map (ts : List Tree) : requoteAll f ts = ts.map (requote f) := by
  induction ts with
  | nil => rfl
  | cons t ts ih => rw [requoteAll, ih, List.map_cons]

theorem isNull_requote (t : Tree) : (t.requote f).isNull = t.isNull := by
  cases t <;> rfl

theorem requote_id (t : Tree) : t.requote id = t := by
  have hall {ts : List Tree} (h : ∀ t ∈ ts, t.requote id = t) : requoteAll id ts = ts := by
    rw [requoteAll_eq_map, List.map_congr_left h, List.map_id']
  induction t using Tree.induction with
  | unary op operand ih => rw [requote, ih]
  | binary op left right ihl ihr => rw [requote, ihl, ihr]
  | call name args separators ih => rw [requote, hall ih]
  | apply callee args separators ihc ih => rw [requote, ihc, hall ih]
  | array elements ih => rw [requote, hall ih]
  | lambda names body ih => rw [requote, ih]
  | branch condition yes no ihc ihy ihn =>
    rw [requote, ihc, ihy]
    cases no with
    | none => rfl
    | some t => rw [requoteElse, ihn t rfl]
  | select kind test targets iht ih => rw [requote, iht, hall ih]
  | define name names body ih => rw [requote, ih]
  | _ => rfl

end Tree

/-! ## Items -/

section
variable {f : String → String}

namespace Token

@[simp] theorem cls_requote (t : Token) : (t.requote f).cls = t.cls := by
  rw [requote]
  split <;> rfl

theorem requote_of_not_quoted {t : Token} (h : t.cls ≠ .quoted) : t.requote f = t :=
  if_neg h

@[simp] theorem isWord_requote (t : Token) (word : String) :
    (t.requote f).isWord word = t.isWord word := by
  by_cases h : t.cls = .quoted
  · rw [isWord, isWord, cls_requote, h]
    rfl
  · rw [requote_of_not_quoted h]

end Token

namespace Item

variable (i : Item) (is : List Item)

@[simp] theorem requoteRun_nil : requoteRun f [] = [] := rfl

@[simp] theorem requoteRun_cons : requoteRun f (i :: is) = i.requote f :: requoteRun f is := rfl

@[simp] theorem requote_group (bracket : Bracket) :
    (group bracket is).requote f = group bracket (requoteRun f is) := rfl

@[simp] theorem requote_token (t : Token) : (token t).requote f = token (t.requote f) := rfl

mutual

theorem requote_id : (i : Item) → i.requote id = i
  | token t => by
    rw [requote_token, Token.requote]
    split <;> rfl
  | group bracket inside => by rw [requote_group, requoteRun_id]

theorem requoteRun_id : (is : List Item) → requoteRun id is = is
  | [] => rfl
  | i :: is => by rw [requoteRun_cons, requote_id, requoteRun_id]

end

/-- An open group with other quoted texts. -/
def Open.requote (f : String → String) (o : Open) : Open :=
  ⟨o.bracket, requoteRun f o.before⟩

theorem requoteRun_eq_map : requoteRun f is = is.map (requote f) := by
  induction is with
  | nil => rfl
  | cons i is ih => rw [requoteRun_cons, ih, List.map_cons]

@[simp] theorem isEmpty_requoteRun : (requoteRun f is).isEmpty = is.isEmpty := by
  cases is <;> rfl

variable {i is}

theorem exists_of_requoteRun_cons {j : Item} {js : List Item} (h : requoteRun f is = j :: js) :
    ∃ i is', is = i :: is' ∧ i.requote f = j ∧ requoteRun f is' = js := by
  cases is with
  | nil => cases h
  | cons i is =>
    cases h
    exact ⟨i, is, rfl, rfl, rfl⟩

theorem exists_of_requote_token {t : Token} (h : i.requote f = token t) : ∃ u, i = token u := by
  cases i with
  | token u => exact ⟨u, rfl⟩
  | group bracket inside => cases h

theorem exists_of_requote_group {bracket : Bracket} {inside : List Item}
    (h : i.requote f = group bracket inside) : ∃ inside', i = group bracket inside' := by
  cases i with
  | token t => cases h
  | group bracket inside' =>
    cases h
    exact ⟨inside', rfl⟩

theorem exists_of_requoteRun_group {bracket : Bracket} {inside : List Item}
    (h : requoteRun f is = [group bracket inside]) : ∃ inside', is = [group bracket inside'] := by
  obtain ⟨i, is', rfl, hi, his⟩ := exists_of_requoteRun_cons h
  obtain ⟨inside', rfl⟩ := exists_of_requote_group hi
  cases is' with
  | nil => exact ⟨inside', rfl⟩
  | cons j js => cases his

variable (i is)

theorem reverse_requoteRun : (requoteRun f is).reverse = requoteRun f is.reverse := by
  rw [requoteRun_eq_map, requoteRun_eq_map, List.map_reverse]

theorem take_requoteRun (k : Nat) : (requoteRun f is).take k = requoteRun f (is.take k) := by
  rw [requoteRun_eq_map, requoteRun_eq_map, List.map_take]

theorem drop_requoteRun (k : Nat) : (requoteRun f is).drop k = requoteRun f (is.drop k) := by
  rw [requoteRun_eq_map, requoteRun_eq_map, List.map_drop]

@[simp] theorem isWord_requote (word : String) : (i.requote f).isWord word = i.isWord word := by
  cases i with
  | token t => exact t.isWord_requote word
  | group bracket inside => rfl

@[simp] theorem isClass_requote (cls : TokenClass) : (i.requote f).isClass cls = i.isClass cls := by
  cases i with
  | token t => simp [isClass]
  | group bracket inside => rfl

@[simp] theorem literal?_requote : (i.requote f).literal? = i.literal? := by
  cases i with
  | token t =>
    by_cases h : t.cls = .quoted
    · simp [literal?, h]
    · rw [requote_token, t.requote_of_not_quoted h]
  | group bracket inside => rfl

@[simp] theorem isReserved_requote : (i.requote f).isReserved = i.isReserved := by
  rw [isReserved, literal?_requote, isReserved]

@[simp] theorem endsOperand_requote : (i.requote f).endsOperand = i.endsOperand := by
  cases i with
  | token t => simp [endsOperand]
  | group bracket inside => rfl

@[simp] theorem operator?_requote : (i.requote f).operator? = i.operator? := by
  cases i with
  | token t =>
    by_cases h : t.cls = .quoted
    · simp [operator?, h]
    · rw [requote_token, t.requote_of_not_quoted h]
  | group bracket inside => rfl

theorem mapM_literal?_requoteRun : (requoteRun f is).mapM literal? = is.mapM literal? := by
  rw [requoteRun_eq_map, List.mapM_map]
  exact congrArg (is.mapM ·) (funext fun i ↦ i.literal?_requote)

theorem tokens_subset_of_mem {i : Item} {is : List Item} (h : i ∈ is) :
    i.tokens ⊆ tokensOfRun is := by
  intro t ht
  rw [tokensOfRun_eq_flatMap, List.mem_flatMap]
  exact ⟨i, h, ht⟩

/-! ### Cutting runs -/

@[simp] theorem opensRound_requoteRun : opensRound (requoteRun f is) = opensRound is := by
  match is with
  | [] => rfl
  | .token t :: is => rfl
  | .group bracket inside :: is => cases bracket <;> rfl

theorem wrapped?_requoteRun : wrapped? (requoteRun f is) = (wrapped? is).map (requoteRun f) := by
  match is with
  | [] => rfl
  | [.token t] => rfl
  | [.group bracket inside] => cases bracket <;> rfl
  | .token _ :: _ :: _ => rfl
  | .group bracket _ :: _ :: _ => cases bracket <;> rfl

theorem operatorSites_requoteRun (k : Nat) (ready : Bool) :
    operatorSites k ready (requoteRun f is) = operatorSites k ready is := by
  induction is generalizing k ready with
  | nil => rfl
  | cons i is ih =>
    rw [requoteRun_cons, operatorSites, operatorSites, operator?_requote, endsOperand_requote, ih]

theorem topOperator?_requoteRun : topOperator? (requoteRun f is) = topOperator? is := by
  rw [topOperator?, operatorSites_requoteRun, topOperator?]

theorem cutFirst?_requoteRun (test : Item → Bool) (h : ∀ i, test (i.requote f) = test i) :
    cutFirst? test (requoteRun f is) = (cutFirst? test is).map fun (before, cut, after) ↦
      (requoteRun f before, cut.requote f, requoteRun f after) := by
  induction is with
  | nil => rfl
  | cons i is ih =>
    rw [requoteRun_cons, cutFirst?, cutFirst?, h, ih]
    split
    · rfl
    · cases cutFirst? test is <;> rfl

theorem cutElse?_requoteRun (open_ : Nat) :
    cutElse? open_ (requoteRun f is) = (cutElse? open_ is).map fun (before, after) ↦
      (requoteRun f before, requoteRun f after) := by
  induction is generalizing open_ with
  | nil => rfl
  | cons i is ih =>
    have hmap (n : Nat) : (cutElse? n (requoteRun f is)).map
        (fun (before, after) ↦ (i.requote f :: before, after)) =
          ((cutElse? n is).map fun (before, after) ↦ (i :: before, after)).map
            fun (before, after) ↦ (requoteRun f before, requoteRun f after) := by
      rw [ih]
      cases cutElse? n is <;> rfl
    rw [requoteRun_cons, cutElse?, cutElse?, isWord_requote, isWord_requote]
    split
    · exact hmap _
    · split
      · split
        · rfl
        · exact hmap _
      · exact hmap _

theorem cutAt_requoteRun {cut : Item → Bool} (h : ∀ i, cut (i.requote f) = cut i) :
    cutAt cut (requoteRun f is) =
      ((cutAt cut is).1.map (requoteRun f), (cutAt cut is).2.map (requote f)) := by
  induction is with
  | nil => rfl
  | cons i is ih =>
    simp only [requoteRun_cons, cutAt, h, ih]
    split
    · rfl
    · cases (cutAt cut is).1 <;> rfl

theorem of_mem_cutAt {cut : Item → Bool} {i : Item} (h : i ∈ (cutAt cut is).2) : cut i = true := by
  induction is with
  | nil => cases h
  | cons j is ih =>
    simp only [cutAt] at h
    split at h
    · obtain rfl | h := List.mem_cons.1 h
      · assumption
      · exact ih h
    · split at h <;> exact ih h

theorem headText_requote_of_isClass {cls : TokenClass} (h : i.isClass cls = true)
    (hcls : cls ≠ .quoted) : (i.requote f).headText = i.headText := by
  cases i with
  | token t =>
    rw [isClass, beq_iff_eq] at h
    rw [requote_token, t.requote_of_not_quoted (h ▸ hcls)]
  | group bracket inside => rfl

theorem separated_requoteRun :
    separated (requoteRun f is) = ((separated is).1.map (requoteRun f), (separated is).2) := by
  rw [separated, cutAt_requoteRun is (isClass_requote · _), separated]
  simp only [List.map_map, Prod.mk.injEq, true_and]
  refine List.map_congr_left fun i hi ↦ ?_
  rw [Function.comp_apply, i.headText_requote_of_isClass (of_mem_cutAt is hi) (by decide)]

end Item
end

/-- What is called, with other texts. -/
def Callee.requote (f : String → String) : Callee → Callee
  | .named name => .named name
  | .tree t => .tree (t.requote f)

theorem Callee.call_requote {f : String → String} (callee : Callee) (args : List Tree)
    (separators : List Separator) :
    (callee.requote f).call (args.map (Tree.requote f)) separators =
      (callee.call args separators).requote f := by
  rw [← Tree.requoteAll_eq_map]
  cases callee <;> rfl

end LineBasic
