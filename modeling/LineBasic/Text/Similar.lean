/-!
# Similar names

A misspelt name is answered with names that look like it.  The similarity of two texts is
`2 * m / t`, where `t` is the number of their characters and `m` the number of those that a greedy
alignment pairs: the longest common block, and then the same on both sides of it.  Of equally long
blocks the earliest in the first text is taken, and then the earliest in the second.

In a text of two hundred characters or more, a character that makes up more than a hundredth of it
is popular; a block has to start from other characters, and popular ones only extend it.
-/

set_option autoImplicit false
namespace LineBasic.Text

/-- A block that two texts have in common: where it starts in each, and its length. -/
structure Block where
  first : Nat
  second : Nat
  size : Nat
deriving DecidableEq, Repr

/-- The lengths of the common runs that end at a character `c` of the first text and at each
character of the second; `previous` are those for the character before `c`, `diagonal` the one
before the first of them.  Only characters that `counts` accepts make a run. -/
def runsAt (counts : Char → Bool) (c : Char) : Nat → List Nat → List Char → List Nat
  | diagonal, previous, d :: second =>
    let run := if c == d && counts d then diagonal + 1 else 0
    run :: runsAt counts c (previous.headD 0) previous.tail second
  | _, _, [] => []

/-- The longest of the runs that end at character `i` of the first text, if it beats `best`. -/
def improve (i : Nat) : Nat → List Nat → Block → Block
  | _, [], best => best
  | j, run :: runs, best =>
    improve i (j + 1) runs
      (if best.size < run then ⟨i + 1 - run, j + 1 - run, run⟩ else best)

/-- The longest block, scanning the first text from character `i` on. -/
def longestFrom (counts : Char → Bool) (second : List Char) :
    Nat → List Nat → List Char → Block → Block
  | _, _, [], best => best
  | i, previous, c :: first, best =>
    let runs := runsAt counts c 0 previous second
    longestFrom counts second (i + 1) runs first (improve i 0 runs best)

/-- How many pairs at the start of the two texts agree. -/
def agreement : List Char → List Char → Nat
  | a :: as, b :: bs => if a == b then agreement as bs + 1 else 0
  | _, _ => 0

/-- Extends a block over equal characters on both sides. -/
def Block.extend (block : Block) (first second : List Char) : Block :=
  let before := agreement (first.take block.first).reverse (second.take block.second).reverse
  let after := agreement (first.drop (block.first + block.size))
    (second.drop (block.second + block.size))
  ⟨block.first - before, block.second - before, before + block.size + after⟩

/-- The block that the alignment takes first. -/
def longestBlock (counts : Char → Bool) (first second : List Char) : Block :=
  (longestFrom counts second 0 [] first ⟨0, 0, 0⟩).extend first second

/-- The number of characters that the alignment pairs.  Each block is taken off both texts, so as
many rounds as the first text has characters are enough. -/
def pairedWithin (counts : Char → Bool) : Nat → List Char → List Char → Nat
  | 0, _, _ => 0
  | rounds + 1, first, second =>
    let block := longestBlock counts first second
    if block.size = 0 then 0
    else
      block.size
        + pairedWithin counts rounds (first.take block.first) (second.take block.second)
        + pairedWithin counts rounds (first.drop (block.first + block.size))
            (second.drop (block.second + block.size))

/-- The characters of the second text that a block may start from. -/
def startsBlock (second : List Char) (c : Char) : Bool :=
  second.length < 200 || second.count c ≤ second.length / 100 + 1

/-- The similarity of two texts as a pair of numbers: paired characters and all characters. -/
structure Similarity where
  paired : Nat
  total : Nat

/-- Compares a name with the text it may be meant for. -/
def similarity (name target : List Char) : Similarity :=
  { paired := pairedWithin (startsBlock target) name.length name target
    total := name.length + target.length }

/-- At least three fifths; two empty texts are alike. -/
def Similarity.isClose (s : Similarity) : Bool :=
  3 * s.total ≤ 10 * s.paired

/-- The order in which suggestions are shown: the more similar first, then the greater name. -/
def showsBefore (a b : Similarity × String) : Bool :=
  let left := a.1.paired * b.1.total
  let right := b.1.paired * a.1.total
  right < left || (right == left && b.2 ≤ a.2)

/-- At most `count` of the names that are close to the target, the closest first.  An empty target
has none. -/
def similarNames (target : String) (names : List String) (count : Nat) : List String :=
  if target.isEmpty then []
  else
    let scored := names.map fun name ↦ (similarity name.toList target.toList, name)
    (((scored.filter (·.1.isClose)).mergeSort showsBefore).take count).map Prod.snd

/-- The similar names under a limit given from outside.  A limit below one is refused, unless there
is nothing to search. -/
def suggestions? (target : String) (names : List String) (limit : Int) : Option (List String) :=
  if target.isEmpty || names.isEmpty then some []
  else if limit < 1 then none
  else some (similarNames target names limit.toNat)

/-- The hint for an unknown name, if there is any name like it. -/
def didYouMean (target : String) (names : List String) : Option String :=
  match similarNames target names 3 with
  | [] => none
  | found => some ("Did you mean: " ++ ", ".intercalate found ++ "?")

end LineBasic.Text
