/-!
# Splitting text into lines

A line ends at a line feed, a carriage return (with a line feed after it counted in), a vertical
tab, a form feed, one of the separators U+001C to U+001E, a next-line character, or a line or
paragraph separator.  The end of the text ends the last line only if it has any character.
-/

set_option autoImplicit false
namespace LineBasic.Text

/-- A character that ends a line. -/
def isLineEnd (c : Char) : Bool :=
  let n := c.toNat
  (0x0A ≤ n && n ≤ 0x0D) || (0x1C ≤ n && n ≤ 0x1E) || n == 0x85 || n == 0x2028 || n == 0x2029

/-- The lines of a text, without their ends. -/
def splitLines : List Char → List (List Char)
  | [] => []
  | '\r' :: '\n' :: cs => [] :: splitLines cs
  | c :: cs =>
    if isLineEnd c then [] :: splitLines cs
    else match splitLines cs with
      | [] => [[c]]
      | line :: more => (c :: line) :: more

/-- The lines of a text. -/
def lines (s : String) : List String :=
  (splitLines s.toList).map String.ofList

/-- A text whose carriage returns, with line feeds after them counted in, are line feeds. -/
def unifyLineFeeds : List Char → List Char
  | [] => []
  | '\r' :: '\n' :: cs => '\n' :: unifyLineFeeds cs
  | '\r' :: cs => '\n' :: unifyLineFeeds cs
  | c :: cs => c :: unifyLineFeeds cs

/-- A text as it is read from a file. -/
def asRead (s : String) : String :=
  String.ofList (unifyLineFeeds s.toList)

/-- A text without line ends is one line, or none if it is empty. -/
theorem splitLines_of_no_end {cs : List Char} (h : ∀ c ∈ cs, isLineEnd c = false) :
    splitLines cs = if cs = [] then [] else [cs] := by
  induction cs with
  | nil => simp [splitLines]
  | cons c cs ih =>
    have hc : isLineEnd c = false := h c (by simp)
    have hr : c ≠ '\r' := by rintro rfl; exact absurd hc (by decide)
    have ih := ih fun d hd ↦ h d (by simp [hd])
    rw [splitLines]
    · by_cases hcs : cs = []
      · subst hcs
        simp [hc, splitLines]
      · simp [hc, ih, hcs]
    · intro rest hr' _
      exact hr hr'

end LineBasic.Text
