import LineBasic.Fault
import LineBasic.Numeral
import LineBasic.Text.Blank
import LineBasic.Text.Lines

/-!
# Stored programs

A program is a map from line numbers to source texts, kept in the order of the numbers.  Only text
is stored; it is parsed anew for every run.

* `get?` — the view: the text of a line.
* `store`, `delete`, `ofText` — ways of editing.
* `listing`, `serialize` — ways of writing the program out.
-/

set_option autoImplicit false
namespace LineBasic

/-- A program: line numbers with their texts, in ascending order. -/
structure Program where
  lines : List (Nat × String) := []
  ascending : lines.Pairwise (fun a b ↦ a.1 < b.1) := by simp

/-- The number that a run of digits of any script stands for.  Digits without a place in a numeral,
and too many digits, have none. -/
def lineNumber (digits : List Char) : Except Number.Mishap Nat :=
  if Numeral.digitLimit < digits.length then .error (.undefined "too many digits")
  else match Text.digitsValue? digits with
    | some n => .ok n
    | none => .error (.undefined "not a decimal digit")

/-- Whether a text looks like a line number. -/
def looksLikeNumber (cs : List Char) : Bool :=
  !cs.isEmpty && cs.all Text.isDigitLike

namespace Program

/-- The program without lines. -/
def empty : Program := {}

/-- Whether there are no lines. -/
def isEmpty (p : Program) : Bool := p.lines.isEmpty

/-- The text of a line. -/
def get? (p : Program) (n : Nat) : Option String :=
  (p.lines.find? fun l ↦ l.1 == n).map Prod.snd

/-! ## Editing -/

/-- The lines that a test accepts. -/
def filter (p : Program) (keep : Nat × String → Bool) : Program :=
  ⟨p.lines.filter keep, p.ascending.filter keep⟩

/-- The program without a line. -/
def erase (p : Program) (n : Nat) : Program :=
  p.filter fun l ↦ l.1 != n

/-- Lines with one put in its place among them; a line of the same number gives way. -/
def put (n : Nat) (text : String) : List (Nat × String) → List (Nat × String)
  | [] => [(n, text)]
  | l :: ls =>
    if n < l.1 then (n, text) :: l :: ls
    else if n = l.1 then (n, text) :: ls
    else l :: put n text ls

theorem mem_put {n : Nat} {text : String} {ls : List (Nat × String)} {l : Nat × String}
    (h : l ∈ put n text ls) : l = (n, text) ∨ l ∈ ls := by
  induction ls with
  | nil => simpa [put] using h
  | cons k ks ih =>
    rw [put] at h
    split at h
    · simpa using h
    · split at h
      · rcases List.mem_cons.1 h with h | h
        · exact .inl h
        · exact .inr (List.mem_cons_of_mem _ h)
      · rcases List.mem_cons.1 h with h | h
        · exact .inr (h ▸ List.mem_cons_self ..)
        · exact (ih h).imp_right (List.mem_cons_of_mem _)

theorem pairwise_put {n : Nat} {text : String} {ls : List (Nat × String)}
    (h : ls.Pairwise fun a b ↦ a.1 < b.1) :
    (put n text ls).Pairwise fun a b ↦ a.1 < b.1 := by
  induction ls with
  | nil => simp [put]
  | cons k ks ih =>
    obtain ⟨hk, hks⟩ := List.pairwise_cons.1 h
    rw [put]
    split
    · rename_i hn
      refine List.pairwise_cons.2 ⟨fun l hl ↦ ?_, h⟩
      rcases List.mem_cons.1 hl with rfl | hl
      · exact hn
      · exact Nat.lt_trans hn (hk l hl)
    · split
      · rename_i hn
        exact List.pairwise_cons.2 ⟨fun l hl ↦ hn ▸ hk l hl, hks⟩
      · refine List.pairwise_cons.2 ⟨fun l hl ↦ ?_, ih hks⟩
        rcases mem_put hl with rfl | hl
        · show k.1 < n
          omega
        · exact hk l hl

/-- The program with the text of a line replaced or entered. -/
def insert (p : Program) (n : Nat) (text : String) : Program :=
  ⟨put n text p.lines, pairwise_put p.ascending⟩

/-- Stores a line without the blanks at its ends; a blank one is removed. -/
def storeAt (p : Program) (n : Nat) (text : String) : Program :=
  let text := Text.strip text
  if text.isEmpty then p.erase n else p.insert n text

/-- Stores a line, whose number may not be negative. -/
def store (p : Program) (n : Int) (text : String) : Except Fault Program :=
  if n < 0 then .error (.malformed ("Invalid line number " ++ toString n))
  else .ok (p.storeAt n.toNat text)

/-- Removes the lines from `start` to `stop`: how many there were, and the rest. -/
def delete (p : Program) (start : Int) (stop : Option Int) : Nat × Program :=
  let last := stop.getD start
  let rest := p.filter fun l ↦ !(start ≤ l.1 && l.1 ≤ last)
  (p.lines.length - rest.lines.length, rest)

/-! ## Reading out -/

/-- The highest line number. -/
def lastLine? (p : Program) : Option Nat :=
  p.lines.getLast?.map Prod.fst

/-- One more than the highest line number: where a run leaves the program. -/
def lineCount (p : Program) : Nat :=
  match p.lastLine? with
  | some last => last + 1
  | none => 0

/-- A line as it is listed: the number takes at least three columns. -/
def listedLine (l : Nat × String) : String :=
  let number := toString l.1
  String.ofList (List.replicate (3 - number.length) ' ') ++ number ++ " " ++ l.2

/-- The lines from `start` to `stop` as they are listed; only the first without `stop`, and all
without `start`. -/
def listing (p : Program) (start stop : Option Int) : List String :=
  match start with
  | none => p.lines.map listedLine
  | some start =>
    let last := stop.getD start
    (p.lines.filter fun l ↦ start ≤ l.1 && l.1 ≤ last).map listedLine

/-- The program as a text, one line for each of its lines. -/
def serialize (p : Program) : String :=
  String.join (p.lines.map fun l ↦ toString l.1 ++ " " ++ l.2 ++ "\n")

/-- The memory that the program takes. -/
def footprint (p : Program) : Int :=
  p.lines.foldr (fun l size ↦ (toString l.1).length + 1 + l.2.length + size) 0

/-! ## Reading in -/

/-- A line of program text that has no number. -/
def illegalLine (raw : String) : Fault :=
  { kind := .syntaxError, message := "Illegal program line", received := some raw
    expected := some "<line number> <statement>" }

/-- Adds a line of program text; blank lines and lines without a statement add nothing. -/
def addLine (p : Program) (raw : String) : Except Stop Program :=
  let line := Text.trim Text.isBlank raw.toList
  if line.isEmpty then .ok p
  else
    let number := line.takeWhile (· != ' ')
    if looksLikeNumber number then
      let text := Text.strip (String.ofList ((line.dropWhile (· != ' ')).drop 1))
      if text.isEmpty then .ok p
      else match lineNumber number with
        | .ok n => .ok (p.insert n text)
        | .error mishap => .error (.mishap mishap)
    else .error (.fault (illegalLine raw))

/-- Reads a program from its text; of lines with the same number the last one counts. -/
def ofText (content : String) : Except Stop Program :=
  (Text.lines content).foldlM addLine empty

end Program

end LineBasic
