import LineBasic.Fault
import LineBasic.Token

/-!
# Bracketed items

Before a line is parsed, its tokens are gathered into items: a token by itself, or a pair of
brackets with the items between them.  A run of items is balanced by construction, so that what
stands outside all brackets is just the run itself, and cutting a run can not cut a pair.

* `Item.gather` — the items of a token sequence, or a fault at the first bracket without a partner.
* `Item.sizeOfRun` — the number of tokens of a run, which parsing recurses on.
-/

set_option autoImplicit false
namespace LineBasic

/-- The kinds of brackets. -/
inductive Bracket where
  | round
  | square
  | curly
deriving DecidableEq, Repr

namespace Bracket

/-- How the opening bracket is written. -/
def opening : Bracket → String
  | round => "("
  | square => "["
  | curly => "\x7b"

/-- How the closing bracket is written. -/
def closing : Bracket → String
  | round => ")"
  | square => "]"
  | curly => "\x7d"

/-- The kind of an opening bracket. -/
def ofOpening? (s : String) : Option Bracket :=
  [round, square, curly].find? (·.opening == s)

end Bracket

/-- A token, or the items between a pair of brackets. -/
inductive Item where
  | token (t : Token)
  | group (bracket : Bracket) (inside : List Item)

namespace Item

mutual

/-- The number of tokens of an item. -/
def size : Item → Nat
  | token _ => 1
  | group _ inside => 2 + sizeOfRun inside

/-- The number of tokens of a run of items. -/
def sizeOfRun : List Item → Nat
  | [] => 0
  | i :: is => i.size + sizeOfRun is

end

mutual

/-- The texts of the tokens of an item. -/
def texts : Item → List String
  | token t => [t.text]
  | group bracket inside => bracket.opening :: textsOfRun inside ++ [bracket.closing]

/-- The texts of the tokens of a run of items. -/
def textsOfRun : List Item → List String
  | [] => []
  | i :: is => i.texts ++ textsOfRun is

end

/-- A run of items as source text, with spaces between the tokens. -/
def joined (items : List Item) : String :=
  " ".intercalate (textsOfRun items)

/-- The text of the first token of an item. -/
def headText : Item → String
  | token t => t.text
  | group bracket _ => bracket.opening

/-- Whether the item is the given word. -/
def isWord (word : String) : Item → Bool
  | token t => t.isWord word
  | group _ _ => false

/-- The upper-case text of a literal item. -/
def literal? : Item → Option String
  | token t => if t.cls == .literal then some (Text.upper t.text) else none
  | group _ _ => none

/-- Whether the item is a token of the given class. -/
def isClass (cls : TokenClass) : Item → Bool
  | token t => t.cls == cls
  | group _ _ => false

/-! ## Gathering -/

/-- A group that is still open: its kind, and what precedes it, latest first. -/
structure Open where
  bracket : Bracket
  before : List Item

/-- A bracket without a partner. -/
def unmatched (source : Source) (bracket : String) : Fault :=
  { kind := .syntaxError, message := "Unmatched brackets", line := source.line
    received := some bracket, context := some source.text }

/-- Gathers tokens onto the items before them, inside the given open groups, innermost first. -/
def gatherFrom (source : Source) : List Open → List Item → List Token → Except Fault (List Item)
  | [], done, [] => .ok done.reverse
  | o :: _, _, [] => .error (unmatched source o.bracket.opening)
  | stack, done, t :: ts =>
    if t.cls == .paren then
      match Bracket.ofOpening? t.text with
      | some bracket => gatherFrom source (⟨bracket, done⟩ :: stack) [] ts
      | none => match stack with
        | o :: stack =>
          if o.bracket.closing == t.text then
            gatherFrom source stack (group o.bracket done.reverse :: o.before) ts
          else .error (unmatched source t.text)
        | [] => .error (unmatched source t.text)
    else gatherFrom source stack (token t :: done) ts

/-- The items of a token sequence. -/
def gather (source : Source) (tokens : List Token) : Except Fault (List Item) :=
  gatherFrom source [] [] tokens

/-! ## Cutting runs -/

@[simp] theorem sizeOfRun_nil : sizeOfRun [] = 0 := rfl

@[simp] theorem sizeOfRun_cons (i : Item) (is : List Item) :
    sizeOfRun (i :: is) = i.size + sizeOfRun is := rfl

@[simp] theorem size_token (t : Token) : (token t).size = 1 := rfl

@[simp] theorem size_group (bracket : Bracket) (inside : List Item) :
    (group bracket inside).size = 2 + sizeOfRun inside := rfl

theorem size_pos (i : Item) : 0 < i.size := by
  cases i with
  | token t => simp
  | group bracket inside =>
    rw [size_group]
    omega

theorem sizeOfRun_append (is js : List Item) :
    sizeOfRun (is ++ js) = sizeOfRun is + sizeOfRun js := by
  induction is with
  | nil => simp
  | cons i is ih => simp [ih, Nat.add_assoc]

theorem sizeOfRun_take_le (n : Nat) (is : List Item) : sizeOfRun (is.take n) ≤ sizeOfRun is := by
  induction is generalizing n with
  | nil => simp
  | cons i is ih =>
    cases n with
    | zero => simp
    | succ n => simpa using ih n

theorem sizeOfRun_drop_le (n : Nat) (is : List Item) : sizeOfRun (is.drop n) ≤ sizeOfRun is := by
  induction is generalizing n with
  | nil => simp
  | cons i is ih =>
    cases n with
    | zero => simp
    | succ n => simpa using Nat.le_trans (ih n) (Nat.le_add_left _ _)

/-- A run that loses an item is smaller. -/
theorem sizeOfRun_take_lt {n : Nat} {is : List Item} (h : n < is.length) :
    sizeOfRun (is.take n) < sizeOfRun is := by
  have hsplit := sizeOfRun_append (is.take n) (is.drop n)
  rw [List.take_append_drop, List.drop_eq_getElem_cons h] at hsplit
  have := size_pos is[n]
  simp only [sizeOfRun_cons] at hsplit
  omega

theorem sizeOfRun_drop_succ_lt {n : Nat} {is : List Item} (h : n < is.length) :
    sizeOfRun (is.drop (n + 1)) < sizeOfRun is := by
  have hsplit := sizeOfRun_append (is.take n) (is.drop n)
  rw [List.take_append_drop, List.drop_eq_getElem_cons h] at hsplit
  have := size_pos is[n]
  simp only [sizeOfRun_cons] at hsplit
  omega

/-- Cuts a run at the items that a test accepts: the pieces, and the items cut at. -/
def cutAt (cut : Item → Bool) : List Item → List (List Item) × List Item
  | [] => ([[]], [])
  | i :: is =>
    let (pieces, cuts) := cutAt cut is
    if cut i then ([] :: pieces, i :: cuts)
    else match pieces with
      | piece :: pieces => ((i :: piece) :: pieces, cuts)
      | [] => ([[i]], cuts)

theorem sizeOfRun_le_of_mem_cutAt {cut : Item → Bool} {is piece : List Item}
    (h : piece ∈ (cutAt cut is).1) : sizeOfRun piece ≤ sizeOfRun is := by
  induction is generalizing piece with
  | nil =>
    simp only [cutAt, List.mem_singleton] at h
    simp [h]
  | cons i is ih =>
    rcases hc : cutAt cut is with ⟨pieces, cuts⟩
    rw [hc] at ih
    simp only [cutAt, hc] at h
    split at h
    · rcases List.mem_cons.1 h with rfl | h
      · simp
      · exact Nat.le_trans (ih h) (by simp)
    · split at h
      · rename_i first rest
        rcases List.mem_cons.1 h with rfl | h
        · simpa using ih (List.mem_cons_self ..)
        · exact Nat.le_trans (ih (List.mem_cons_of_mem _ h)) (by simp)
      · rw [List.mem_singleton.1 h]
        simp

end Item

end LineBasic
