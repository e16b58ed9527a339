import LineBasic.Text.Blank
import LineBasic.Text.Word
import LineBasic.Token.Fuse
import LineBasic.Token.Scan
import LineBasic.Tree.Parse
import LineBasic.Tree.Scope

/-!
# Source lines

A source line holds statements with colons between them.  It is scanned, its tokens are settled,
and each statement is parsed and has its parameters resolved.  A line that starts with the remark
word has no statements; a remark among other statements has no tree.
-/

set_option autoImplicit false
namespace LineBasic

/-- Whether a text starts with a word of ASCII letters, in any case, that ends there. -/
def startsWithWord (word : String) (cs : List Char) : Bool :=
  let letters := word.toList
  (cs.take letters.length).map Char.toUpper == letters && Text.endsWord (cs.drop letters.length)

/-- Whether the line is a remark. -/
def isRemarkLine (text : String) : Bool :=
  startsWithWord "REM" (text.toList.dropWhile Text.isBlank)

/-- One statement of a line. -/
def parseTopStatement (isBuiltin : String → Bool) (source : Source) (items : List Item) :
    Except Stop (Option Tree) :=
  if items.isEmpty then
    .error (.fault
      { kind := .syntaxError, message := "Empty statement", line := source.line
        suggestion := some "Remove the extra ':'", context := some source.text })
  else match parseStatement isBuiltin source items with
    | .ok tree => .ok tree
    | .error (.stop stop) => .error stop
    | .error (.mismatch why) =>
      .error (.fault
        { kind := .syntaxError, message := "Statement cannot be parsed", line := source.line
          received := some (Item.joined items), context := some why })

/-- The statements of a line of settled tokens, before parameters are resolved. -/
def parseTokens (isBuiltin : String → Bool) (line : Option Int) (tokens : List Token) :
    Except Stop (List (Option Tree)) :=
  if tokens.head?.all (·.isWord "REM") then .ok []
  else do
    let source : Source := ⟨line, joinTexts tokens⟩
    let items ← (Item.gather source tokens).mapError Stop.fault
    (Item.cutAt (·.isClass .sequence) items).1.mapM (parseTopStatement isBuiltin source)

/-- The settled tokens of a line. -/
def settledTokens (line : Option Int) (text : String) : Except Stop (List Token) := do
  let tokens ← (scan line text).mapError Stop.fault
  (Token.settleAll tokens).mapError Stop.mishap

/-- The statements of a line before parameters are resolved. -/
def parseRaw (isBuiltin : String → Bool) (line : Option Int) (text : String) :
    Except Stop (List (Option Tree)) := do
  if isRemarkLine text then return []
  parseTokens isBuiltin line (← settledTokens line text)

/-- The statements of a line. -/
def parseLine (isBuiltin : String → Bool) (line : Option Int) (text : String) :
    Except Stop (List (Option Tree)) :=
  return (← parseRaw isBuiltin line text).map (·.map Tree.resolve)

end LineBasic
