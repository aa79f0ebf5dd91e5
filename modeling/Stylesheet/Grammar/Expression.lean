import Stylesheet.Expr
import Stylesheet.Grammar
import Stylesheet.Grammar.Reader
import Stylesheet.Text.Suffix

/-! # Reading expressions

An expression is a run of operands joined by operators. The run is read first,
as far as its operators bind tighter than a limit, and then grouped: a tighter
operator takes its operands first, and operators of one power group to the
left.
-/

namespace Stylesheet

open TokenReader

namespace Token

/-- The quantity that a token writes. Its suffix may be repeated. -/
def quantity (token : Token) (dimension : Dimension) : Except Cause Expr :=
  match Number.parse? (Text.dropSuffixes dimension.suffix token.text.toList) with
  | some value => .ok (.literal (.quantity value dimension) token.span)
  | none => .error (.badNumber token.text)

def operand (token : Token) : Except Cause Expr :=
  match token.kind with
  | .pixel => token.quantity .pixel
  | .percentage => token.quantity .percentage
  | .scalar => token.quantity .scalar
  | .color => .ok (.literal (.color token.text) token.span)
  | .trueWord => .ok (.literal (.boolean true) token.span)
  | .falseWord => .ok (.literal (.boolean false) token.span)
  | .capitalName => .ok (.reference token.text token.span)
  | _ => .error (.unexpected token.text)

def operator? (token : Token) : Option Operator :=
  match token.kind with
  | .plus => some .add
  | .minus => some .subtract
  | .star => some .multiply
  | _ => none

end Token

structure Step where
  operator : Operator
  power : Precedence
  operand : Expr

/-- An operator with its left operand, waiting for the right one. -/
structure Awaiting where
  left : Expr
  operator : Operator
  power : Precedence

namespace Expr

/-- Give `right` to the waiting operators that bind at least as tightly as
`power`, innermost first. -/
def settle (power : Precedence) : List Awaiting → Expr → List Awaiting × Expr
  | [], right => ([], right)
  | a :: outer, right =>
    if a.power < power then (a :: outer, right)
    else settle power outer (join a.operator a.left right)

def group : List Awaiting → Expr → List Step → Expr
  | awaiting, operand, [] =>
    awaiting.foldl (fun right a => join a.operator a.left right) operand
  | awaiting, operand, step :: steps =>
    let (outer, left) := settle step.power awaiting operand
    group (⟨left, step.operator, step.power⟩ :: outer) step.operand steps

end Expr

def readPrimary : TokenReader Expr := do
  let token ← current
  match token.operand with
  | .ok e => do
    let _ ← advance
    return e
  | .error cause => throw ⟨cause, token.span.start⟩

def readOperand (grammar : Grammar) : TokenReader Expr := do
  if grammar.isOperand (← current).kind then readPrimary
  else throw (← misplaced "expected an expression")

/-- Take an operator. Another token is taken too, and is a fault. -/
def readOperator : TokenReader Operator := do
  let token ← advance
  match token.operator? with
  | some operator => return operator
  | none => throw ⟨.unexpected token.text, token.span.start⟩

def readStep (grammar : Grammar) : TokenReader Step := do
  let power := grammar.power (← current).kind
  let operator ← readOperator
  let operand ← readOperand grammar
  return ⟨operator, power, operand⟩

theorem advances_readPrimary : Advances readPrimary := by
  intro stream e rest h
  obtain ⟨token, between, ht, h⟩ := bind_eq_ok.mp h
  cases ht
  cases he : stream.current.operand with
  | ok e' =>
    rw [he] at h
    cases h
    refine TokenStream.size_advance_lt fun hk => ?_
    simp [Token.operand, hk] at he
  | error cause =>
    rw [he] at h
    cases h

theorem advances_readOperand (grammar : Grammar) : Advances (readOperand grammar) := by
  refine steady_current.bind_advances fun token => ?_
  split
  · exact advances_readPrimary
  · exact (steady_misplaced _).bind_advances fun _ => .throw _

theorem advances_readOperator : Advances readOperator := by
  intro stream operator rest h
  obtain ⟨token, between, ht, h⟩ := bind_eq_ok.mp h
  cases ht
  cases ho : stream.current.operator? with
  | some operator' =>
    rw [ho] at h
    cases h
    refine TokenStream.size_advance_lt fun hk => ?_
    simp [Token.operator?, hk] at ho
  | none =>
    rw [ho] at h
    cases h

theorem advances_readStep (grammar : Grammar) : Advances (readStep grammar) :=
  steady_current.bind_advances fun _ => advances_readOperator.bind fun _ =>
    (advances_readOperand grammar).steady.bind fun _ => .pure _

/-- Take operators and operands as long as the operators bind tighter than
`limit`. -/
def readSteps (grammar : Grammar) (limit : Precedence) : TokenReader (List Step) :=
  readWhile (fun stream => limit < grammar.power stream.current.kind) (readStep grammar)
    (advances_readStep grammar)

/-- Take an expression whose operators bind tighter than `limit`. -/
def readExpr (grammar : Grammar) (limit : Precedence) : TokenReader Expr := do
  let operand ← readOperand grammar
  let steps ← readSteps grammar limit
  return Expr.group [] operand steps

theorem advances_readExpr (grammar : Grammar) (limit : Precedence) :
    Advances (readExpr grammar limit) :=
  (advances_readOperand grammar).bind fun _ =>
    (steady_readWhile _ (advances_readStep grammar)).bind fun _ => .pure _

/-- Take an operator and an expression, and join them to `left`. -/
def readOperation (grammar : Grammar) (left : Expr) (limit : Precedence) :
    TokenReader Expr := do
  let operator ← readOperator
  let right ← readExpr grammar limit
  return Expr.join operator left right

end Stylesheet
