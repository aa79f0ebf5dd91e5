import Stylesheet.Excerpt
import Stylesheet.Text.Quoted

/-! # Faults

A fault ends a run: it has a cause and the position at which it was found.
This module holds the wording of every fault.
-/

namespace Stylesheet

open Text

inductive Cause where
  | unrecognised (token : String)
  | unexpected (token : String)
  /-- An unexpected token where the message says what was wanted. -/
  | misplaced (token message : String)
  | badNumber (token : String)
  | rootNotDocument (found : String)
  | noScope (name : String)
  deriving DecidableEq

namespace Cause

def name : Cause → String
  | unrecognised _ => "UnrecognisedToken"
  | unexpected _ => "UnexpectedToken"
  | misplaced _ _ => "UnexpectedTokenDetailed"
  | badNumber _ => "NumberParseError"
  | rootNotDocument _ => "RootNotDocument"
  | noScope _ => "NoScope"

def message : Cause → String
  | unrecognised token => "unrecognised token: " ++ quoted token
  | unexpected token => "unexpected token: " ++ quoted token
  | misplaced token message => "unexpected token (" ++ quoted message ++ "): " ++ quoted token
  | badNumber token => "error parsing number: " ++ quoted token
  | rootNotDocument found => "root node should be a document, found " ++ found
  | noScope name => "variable " ++ quoted name ++ " bound without an enclosing scope"

/-- Advice for the author of the source, if the cause suggests any. -/
def tip? : Cause → Option String
  | unrecognised _ => none
  | unexpected token =>
    some ("Unexpected token: `" ++ token ++ "`, did you miss a semicolon?")
  | misplaced token message => some ("Unexpected token: `" ++ token ++ "`, " ++ message)
  | badNumber token => some ("Invalid number: `" ++ token ++ "`, is it above the integer limit?")
  | rootNotDocument found =>
    some ("The root of the tree must be a document, found `" ++ found ++ "`")
  | noScope name => some ("Variable `" ++ name ++ "` was bound outside of any scope")

def headline (cause : Cause) : String :=
  match cause.tip? with
  | none => "Error: " ++ cause.name
  | some tip => "Error: " ++ cause.name ++ " (" ++ tip ++ ")"

end Cause

structure Fault where
  cause : Cause
  position : Position
  deriving DecidableEq

def Fault.display (fault : Fault) (source : String) : String :=
  excerpt source fault.position.file fault.position.offset fault.cause.headline

end Stylesheet
