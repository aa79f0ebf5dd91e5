import Stylesheet.Literal

/-! # Events

What a run reports about itself besides its result, in the order in which it
happens.
-/

namespace Stylesheet

inductive Event where
  /-- A source was read as this many tokens, the closing one included. -/
  | tokenized (count : Nat)
  /-- A tree was checked with this many diagnostics. -/
  | checked (count : Nat)
  /-- A source was refused for this many diagnostics. -/
  | refused (count : Nat)
  | droppedNode (noun : String)
  | unfoldedDeclaration (property : String)
  | unfoldedBinding (name : String)
  | undecidedCondition (value : Option Literal)
  | skippedDeclaration (property : String)
  deriving DecidableEq

inductive Level where
  | trace
  | debug
  | info
  | warn
  deriving DecidableEq

def Level.name : Level → String
  | trace => "TRACE"
  | debug => "DEBUG"
  | info => "INFO"
  | warn => "WARN"

namespace Event

def level : Event → Level
  | tokenized _ => .trace
  | checked _ => .debug
  | refused _ => .info
  | _ => .warn

def message : Event → String
  | tokenized _ => "tokenized"
  | checked _ => "checking complete"
  | refused _ => "checking reported errors"
  | droppedNode _ => "dropping misplaced node"
  | unfoldedDeclaration _ => "declaration value does not fold to a literal"
  | unfoldedBinding _ => "binding does not fold to a literal"
  | undecidedCondition _ => "condition does not fold to a boolean"
  | skippedDeclaration _ => "skipping declaration with an unevaluated value"

/-- What an event is about: the name of its field and the field's text. -/
def field : Event → String × String
  | tokenized count => ("count", toString count)
  | checked count => ("count", toString count)
  | refused count => ("count", toString count)
  | droppedNode noun => ("kind", noun)
  | unfoldedDeclaration property => ("property", property)
  | unfoldedBinding name => ("name", name)
  | undecidedCondition none => ("condition", "None")
  | undecidedCondition (some value) => ("condition", "Some(" ++ value.describe ++ ")")
  | skippedDeclaration property => ("property", property)

end Event

end Stylesheet
