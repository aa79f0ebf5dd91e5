import Stylesheet.Grammar.Statement
import Stylesheet.Token.Scan

/-! # Reading documents

A document is read statement by statement up to the first closing token. A
source is read by way of its tokens.
-/

namespace Stylesheet

open TokenReader

def readStatements (grammar : Grammar) : TokenReader (List Node) :=
  readWhile (fun stream => !stream.atEnd) (readStatement grammar) (advances_readStatement grammar)

/-- Read a document, which runs from the start of the file to the first closing
token. -/
def readDocument (grammar : Grammar) (file : String) : TokenReader Node := do
  let children ← readStatements grammar
  return .document children ⟨⟨0, file⟩, (← current).span.start⟩

def parseTokens (file : String) (tokens : List Token) : Except Fault Node :=
  match readDocument .standard file (.ofTokens file tokens) with
  | .ok document _ => .ok document
  | .error fault _ => .error fault

def parse (file source : String) : Except Fault Node :=
  tokenize file source >>= parseTokens file

end Stylesheet
