import Stylesheet.Literal
import Stylesheet.Span

/-! # Expressions

Expressions are literals, references to variables and operations on two
expressions. Two expressions are the same when they differ in spans only.
-/

namespace Stylesheet

inductive Expr where
  | literal (value : Literal) (span : Span)
  | reference (name : String) (span : Span)
  | operation (operator : Operator) (left right : Expr) (span : Span)
  deriving DecidableEq

namespace Expr

def span : Expr → Span
  | literal _ span => span
  | reference _ span => span
  | operation _ _ _ span => span

def literal? : Expr → Option Literal
  | literal value _ => some value
  | _ => none

/-- The operation on two expressions, from the start of the left one to the end
of the right one. -/
def join (operator : Operator) (left right : Expr) : Expr :=
  operation operator left right ⟨left.span.start, right.span.stop⟩

/-- Whether two expressions are equal but for their spans. -/
def same : Expr → Expr → Bool
  | literal v _, literal w _ => v = w
  | reference x _, reference y _ => x = y
  | operation o a b _, operation o' a' b' _ => o = o' && a.same a' && b.same b'
  | _, _ => false

end Expr

end Stylesheet
