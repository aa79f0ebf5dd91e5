import Stylesheet.Span

/-! # Tokens

The words of the language. A token keeps its text and the span it was read
from.
-/

namespace Stylesheet

inductive TokenKind where
  | endOfInput
  | color
  | pixel
  | percentage
  | scalar
  | trueWord
  | falseWord
  | idSelector
  | classSelector
  | lowerName
  | capitalName
  | openBracket
  | closeBracket
  | openBrace
  | closeBrace
  | assign
  | colon
  | semicolon
  | comma
  | plus
  | minus
  | star
  | ifWord
  | elseWord
  deriving DecidableEq

def TokenKind.name : TokenKind → String
  | endOfInput => "EOF"
  | color => "Color"
  | pixel => "Pixel"
  | percentage => "Percentage"
  | scalar => "Scalar"
  | trueWord => "True"
  | falseWord => "False"
  | idSelector => "IdSelector"
  | classSelector => "ClassSelector"
  | lowerName => "LowerIdent"
  | capitalName => "CapitalIdent"
  | openBracket => "OpenBracket"
  | closeBracket => "CloseBracket"
  | openBrace => "OpenCurly"
  | closeBrace => "CloseCurly"
  | assign => "AssignmentOperator"
  | colon => "Colon"
  | semicolon => "Semicolon"
  | comma => "Comma"
  | plus => "Plus"
  | minus => "Minus"
  | star => "Star"
  | ifWord => "If"
  | elseWord => "Else"

/-- The words that are not names. -/
def TokenKind.reserved? : String → Option TokenKind
  | "if" => some .ifWord
  | "else" => some .elseWord
  | "TRUE" => some .trueWord
  | "FALSE" => some .falseWord
  | _ => none

structure Token where
  kind : TokenKind
  text : String
  span : Span
  deriving DecidableEq

namespace Token

def describe (token : Token) : String :=
  token.kind.name ++ " (" ++ token.text ++ ")"

def isOneOf (token : Token) (kinds : List TokenKind) : Bool :=
  kinds.contains token.kind

def ending (place : Span) : Token := ⟨.endOfInput, "EOF", place⟩

end Token

end Stylesheet
