import Stylesheet.Token

/-! # Grammars

A grammar says which tokens start which statements, which tokens are operands
and how tightly the operators bind. It is a value: an entry can be added to any
grammar, and replaces the entry the token had.
-/

namespace Stylesheet

/-- How tightly an operator binds its operands. -/
inductive Precedence where
  | lowest
  | additive
  | multiplicative
  | primary
  deriving DecidableEq

namespace Precedence

def rank : Precedence → Nat
  | lowest => 0
  | additive => 1
  | multiplicative => 2
  | primary => 3

instance : LT Precedence := ⟨fun a b => a.rank < b.rank⟩

instance (a b : Precedence) : Decidable (a < b) := inferInstanceAs (Decidable (a.rank < b.rank))

end Precedence

inductive StatementForm where
  | binding
  /-- A declaration if a colon follows, and a rule otherwise. -/
  | declarationOrRule
  | declaration
  | rule
  | conditional
  deriving DecidableEq

structure Grammar where
  form? : TokenKind → Option StatementForm
  isOperand : TokenKind → Bool
  power? : TokenKind → Option Precedence

namespace Grammar

def empty : Grammar := ⟨fun _ => none, fun _ => false, fun _ => none⟩

def standard : Grammar where
  form?
    | .capitalName => some .binding
    | .ifWord => some .conditional
    | .lowerName => some .declarationOrRule
    | .classSelector => some .rule
    | .idSelector => some .rule
    | .color => some .rule
    | _ => none
  isOperand
    | .pixel => true
    | .percentage => true
    | .scalar => true
    | .color => true
    | .trueWord => true
    | .falseWord => true
    | .capitalName => true
    | _ => false
  power?
    | .plus => some .additive
    | .minus => some .additive
    | .star => some .multiplicative
    | _ => none

variable (grammar : Grammar)

/-- The entries of a grammar, and those of another for the tokens it leaves out. -/
def overlay (other : Grammar) : Grammar where
  form? kind := (grammar.form? kind).or (other.form? kind)
  isOperand kind := grammar.isOperand kind || other.isOperand kind
  power? kind := (grammar.power? kind).or (other.power? kind)

def addStatement (kind : TokenKind) (form : StatementForm) : Grammar :=
  { grammar with form? := fun k => if k = kind then some form else grammar.form? k }

def addOperand (kind : TokenKind) : Grammar :=
  { grammar with isOperand := fun k => k = kind || grammar.isOperand k }

def addOperator (kind : TokenKind) (power : Precedence) : Grammar :=
  { grammar with power? := fun k => if k = kind then some power else grammar.power? k }

/-- How tightly a token binds; what is no operator binds least. -/
def power (kind : TokenKind) : Precedence := (grammar.power? kind).getD .lowest

end Grammar

end Stylesheet
