import LineBasic.Program
import LineBasic.Text.Word

/-!
# Renumbering

Lines get the numbers 10, 20, 30 and so on, and the targets of jumps follow.  A target is a numeral
in a list that stands, after blanks, behind the word `GOTO`, `GOSUB` or `BREAKTO`; one that is not
the number of a line is left as it is.

The words are found in the text of a line, in any case of letters.  Letters that equal ASCII letters
but for their case count as these: the long s and the Kelvin sign.
-/

set_option autoImplicit false
namespace LineBasic.Program

/-! ## Finding targets -/

/-- The ASCII capital that a character equals but for its case. -/
def foldLetter (c : Char) : Char :=
  if c.toNat == 0x17F then 'S' else if c.toNat == 0x212A then 'K' else c.toUpper

/-- The length of the jump word that a text starts with. -/
def jumpWord? (cs : List Char) : Option Nat :=
  (["GOTO", "GOSUB", "BREAKTO"].find? fun word ↦
    (cs.take word.length).map foldLetter == word.toList).map String.length

/-- A part of a list of targets: a numeral, or what is between two. -/
inductive TargetPart where
  | numeral (digits : List Char)
  | between (text : List Char)

/-- The characters of a part. -/
def TargetPart.text : TargetPart → List Char
  | numeral digits => digits
  | between text => text

/-- What leads from one target to the next, if another target follows: blanks, a comma, blanks. -/
def targetGap (cs : List Char) : List Char :=
  let before := cs.takeWhile Text.isBlank
  match cs.dropWhile Text.isBlank with
  | ',' :: rest =>
    let after := rest.takeWhile Text.isBlank
    match rest.dropWhile Text.isBlank with
    | d :: _ => if Text.isDecimalDigit d then before ++ ',' :: after else []
    | [] => []
  | _ => []

/-- The parts of the list of targets that a text starts with, and what follows it.  Every target
takes a character at least, so as many rounds as there are characters are enough. -/
def targetsWithin : Nat → List Char → List TargetPart × List Char
  | 0, cs => ([], cs)
  | rounds + 1, cs =>
    let digits := cs.takeWhile Text.isDecimalDigit
    let rest := cs.dropWhile Text.isDecimalDigit
    match targetGap rest with
    | [] => ([.numeral digits], rest)
    | gap =>
      let (parts, rest) := targetsWithin rounds (rest.drop gap.length)
      (.numeral digits :: .between gap :: parts, rest)

/-- The jump that a text starts with: its word with the blanks after it, its targets, and what
follows them. -/
def jump? (cs : List Char) : Option (List Char × List TargetPart × List Char) := do
  let length ← jumpWord? cs
  let blanks := (cs.drop length).takeWhile Text.isBlank
  let rest := (cs.drop length).dropWhile Text.isBlank
  if blanks.isEmpty || !rest.head?.any Text.isDecimalDigit then none
  else
    let (parts, rest) := targetsWithin rest.length rest
    return (cs.take length ++ blanks, parts, rest)

/-! ## Rewriting targets -/

/-- The new numbers of lines. -/
abbrev Renumbering : Type := List (Nat × Nat)

/-- The new number of a line, if it has one. -/
def Renumbering.find? (m : Renumbering) (n : Nat) : Option Nat :=
  (List.find? (fun e ↦ e.1 == n) m).map Prod.snd

/-- A part of a list of targets with its target renumbered. -/
def Renumbering.part (m : Renumbering) : TargetPart → Except Number.Mishap (List Char)
  | .between text => .ok text
  | .numeral digits => do
    match m.find? (← lineNumber digits) with
    | some new => return (toString new).toList
    | none => return digits

/-- A text with all targets renumbered.  A jump word counts only where no word runs into it, which
`inWord` tells of the start; each round takes a character or a jump off the text. -/
def Renumbering.within (m : Renumbering) :
    Nat → Bool → List Char → Except Number.Mishap (List Char)
  | 0, _, cs => .ok cs
  | _, _, [] => .ok []
  | rounds + 1, inWord, c :: cs =>
    match if inWord then none else jump? (c :: cs) with
    | some (lead, parts, rest) => do
      let targets ← parts.mapM m.part
      return lead ++ targets.flatten ++ (← m.within rounds true rest)
    | none => return c :: (← m.within rounds (Text.isWord c) cs)

/-- A line's text with all targets renumbered. -/
def Renumbering.text (m : Renumbering) (s : String) : Except Number.Mishap String :=
  return String.ofList (← m.within s.length false s.toList)

/-! ## Renumbering a program -/

/-- The number of the first line after renumbering, and the distance to the next. -/
def step : Nat := 10

/-- The new number of each line of a program. -/
def renumbering (p : Program) : Renumbering :=
  p.lines.mapIdx fun k l ↦ (l.1, step + k * step)

/-- Texts numbered from the `k`-th on. -/
def numbered (k : Nat) : List String → List (Nat × String)
  | [] => []
  | text :: texts => (step + k * step, text) :: numbered (k + 1) texts

theorem le_of_mem_numbered {k : Nat} {texts : List String} {l : Nat × String}
    (h : l ∈ numbered k texts) : step + k * step ≤ l.1 := by
  induction texts generalizing k with
  | nil => simp [numbered] at h
  | cons text texts ih =>
    rcases List.mem_cons.1 h with rfl | h
    · exact Nat.le_refl _
    · have := ih h
      simp only [step] at this ⊢
      omega

theorem pairwise_numbered (k : Nat) (texts : List String) :
    (numbered k texts).Pairwise fun a b ↦ a.1 < b.1 := by
  induction texts generalizing k with
  | nil => simp [numbered]
  | cons text texts ih =>
    refine List.pairwise_cons.2 ⟨fun l hl ↦ ?_, ih (k + 1)⟩
    have := le_of_mem_numbered hl
    simp only [step] at this ⊢
    omega

/-- The program with its lines renumbered, and their new numbers. -/
def renumber (p : Program) : Except Number.Mishap (Renumbering × Program) := do
  let m := p.renumbering
  let texts ← p.lines.mapM fun l ↦ m.text l.2
  return (m, ⟨numbered 0 texts, pairwise_numbered 0 texts⟩)

end LineBasic.Program
