import Stylesheet.Span
import Stylesheet.Text.Blank
import Stylesheet.Text.Bytes

/-! # Source excerpts

A report quotes the source line that holds a byte offset and marks the place
under it. Lines end at a newline, which belongs to its line.
-/

namespace Stylesheet

open Text

structure Line where
  number : Nat
  text : List Char
  /-- The place, in bytes from the start of the line. -/
  column : Nat
  deriving DecidableEq

namespace Line

def firstLine : List Char → List Char
  | [] => []
  | c :: cs => if c = '\n' then [c] else c :: firstLine cs

/-- Find the line that holds the byte `ahead` bytes further on. The characters
read so far belong to line `number` and are kept last first in `before`. -/
def seek (number : Nat) (before : List Char) (ahead : Nat) : List Char → Option Line
  | [] => none
  | c :: cs =>
    if ahead < c.utf8Size then
      some ⟨number, before.reverse ++ firstLine (c :: cs), byteLength before + ahead⟩
    else if c = '\n' then seek (number + 1) [] (ahead - c.utf8Size) cs
    else seek number (c :: before) (ahead - c.utf8Size) cs

/-- The line of `source` that holds the byte at `offset`; nothing from the end
of the source on. -/
def find? (source : String) (offset : UInt32) : Option Line :=
  seek 1 [] offset.toNat source.toList

/-- Spaces and tabs, which are dropped at the start of a quoted line. -/
def isIndent (c : Char) : Bool := c = ' ' || c = '\t'

/-- The quoted line with its number, between a rule above and the marker below.
The marker counts bytes from the first character that is not indentation. -/
def render (line : Line) : String :=
  let number := toString line.number
  let margin := String.ofList (List.replicate (number.length + 1) ' ')
  let indent := line.text.takeWhile isIndent
  let shown := String.ofList (trimEnd (line.text.dropWhile isIndent))
  let dashes := String.ofList (List.replicate (line.column - indent.length) '-')
  margin ++ "|\n" ++ number ++ " | " ++ shown ++ "\n" ++ margin ++ "| " ++ dashes ++ "^\n"

end Line

/-- A headline, the file, and the source line at `offset` if there is one. -/
def excerpt (source file : String) (offset : UInt32) (headline : String) : String :=
  headline ++ "\n-> " ++ file ++ "\n" ++ ((Line.find? source offset).map Line.render).getD ""

end Stylesheet
