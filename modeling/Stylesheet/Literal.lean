import Stylesheet.Number
import Stylesheet.Text.Quoted

/-! # Literals

A literal is a color, a truth value, or a quantity: a number that counts
pixels, percent or nothing in particular. Operations are folded on quantities
only, and only where the result fits.
-/

namespace Stylesheet

inductive Dimension where
  | pixel
  | percentage
  | scalar
  deriving DecidableEq

/-- What stands behind a number of this dimension. -/
def Dimension.suffix : Dimension → List Char
  | pixel => ['p', 'x']
  | percentage => ['%']
  | scalar => []

inductive ValueType where
  | color
  | quantity (dimension : Dimension)
  | boolean
  deriving DecidableEq

def ValueType.name : ValueType → String
  | color => "color"
  | quantity .pixel => "pixel"
  | quantity .percentage => "percentage"
  | quantity .scalar => "scalar"
  | boolean => "boolean"

inductive Literal where
  | color (text : String)
  | quantity (value : Number) (dimension : Dimension)
  | boolean (value : Bool)
  deriving DecidableEq

namespace Literal

def type : Literal → ValueType
  | color _ => .color
  | quantity _ dimension => .quantity dimension
  | boolean _ => .boolean

/-- The literal as it is printed in a style sheet. -/
def render : Literal → String
  | color text => text
  | quantity value dimension => String.ofList (value.render ++ dimension.suffix)
  | boolean true => "true"
  | boolean false => "false"

def describe : Literal → String
  | color text => "Color(" ++ Text.quoted text ++ ")"
  | quantity value .pixel => "Pixel(" ++ String.ofList value.render ++ ")"
  | quantity value .percentage => "Percentage(" ++ String.ofList value.render ++ ")"
  | quantity value .scalar => "Scalar(" ++ String.ofList value.render ++ ")"
  | boolean true => "Bool(true)"
  | boolean false => "Bool(false)"

end Literal

inductive Operator where
  | add
  | subtract
  | multiply
  deriving DecidableEq

namespace Operator

/-- The operation on unbounded integers. -/
def exact : Operator → Int → Int → Int
  | add, m, n => m + n
  | subtract, m, n => m - n
  | multiply, m, n => m * n

/-- The dimension of a result. Sums need equal dimensions, and one factor of a
product is a scalar. -/
def dimension? : Operator → Dimension → Dimension → Option Dimension
  | multiply, d, .scalar => some d
  | multiply, .scalar, d => some d
  | multiply, _, _ => none
  | _, d, e => if d = e then some d else none

def fold? : Operator → Literal → Literal → Option Literal
  | op, .quantity m d, .quantity n e =>
    (op.dimension? d e).bind fun f =>
      (Number.ofInt? (op.exact m.toInt n.toInt)).map fun v => .quantity v f
  | _, _, _ => none

end Operator

end Stylesheet
