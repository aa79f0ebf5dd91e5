import Stylesheet.Text.Blank
import Stylesheet.Token
import Stylesheet.Token.Pattern

/-! # The lexicon

The rules by which lexemes are read, in the order in which they are tried. The
first rule whose pattern recognises a lexeme decides, so a longer pattern
stands before the patterns that recognise a part of it.
-/

namespace Stylesheet

/-- A pattern and the kind of token its lexemes are; none for layout. -/
structure LexicalRule where
  pattern : Pattern
  kind? : List Char → Option TokenKind

namespace Lexicon

open Pattern Text

def isHexDigit (c : Char) : Bool :=
  c.isDigit || ('a' ≤ c && c ≤ 'f') || ('A' ≤ c && c ≤ 'F')

def isHashChar (c : Char) : Bool := c.isAlphanum || c = '-'

def isLowerChar (c : Char) : Bool := c.isLower || c.isDigit || c = '-'

def isCapitalChar (c : Char) : Bool := c.isAlphanum || c = '_'

def layout : List Char → Option TokenKind := fun _ => none

def always (kind : TokenKind) : List Char → Option TokenKind := fun _ => some kind

/-- A hash word is a color when it has exactly six digits, all hexadecimal. -/
def hashWord (lexeme : List Char) : Option TokenKind :=
  let digits := lexeme.tail
  some (if digits.length = 6 && digits.all isHexDigit then .color else .idSelector)

/-- A name has the given kind unless it is reserved. -/
def nameOr (kind : TokenKind) (lexeme : List Char) : Option TokenKind :=
  some ((TokenKind.reserved? (String.ofList lexeme)).getD kind)

def mark (text : String) (kind : TokenKind) : LexicalRule :=
  ⟨word text.toList, always kind⟩

def rules : List LexicalRule :=
  [⟨runOf isBlank, layout⟩,
   ⟨seq (word ['/', '/']) (run (· ≠ '\n')), layout⟩,
   ⟨seq (word ['/', '*']) (through ['*', '/']), layout⟩,
   ⟨seq (word ['#']) (runOf isHashChar), hashWord⟩,
   ⟨seq (word ['.']) (runOf isLowerChar), always .classSelector⟩,
   ⟨seq (runOf Char.isDigit) (word ['p', 'x']), always .pixel⟩,
   ⟨seq (runOf Char.isDigit) (word ['%']), always .percentage⟩,
   ⟨runOf Char.isDigit, always .scalar⟩,
   ⟨seq (among Char.isLower) (run isLowerChar), nameOr .lowerName⟩,
   ⟨seq (among Char.isUpper) (run isCapitalChar), nameOr .capitalName⟩,
   mark ":=" .assign,
   mark ":" .colon,
   mark ";" .semicolon,
   mark "," .comma,
   mark "\x7b" .openBrace,
   mark "\x7d" .closeBrace,
   mark "[" .openBracket,
   mark "]" .closeBracket,
   mark "+" .plus,
   mark "-" .minus,
   mark "*" .star]

theorem consumes_of_mem_rules : ∀ rule ∈ rules, rule.pattern.consumes = true := by
  decide

end Lexicon

end Stylesheet
