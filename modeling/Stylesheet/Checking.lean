import Stylesheet.Diagnostic
import Stylesheet.Event
import Stylesheet.Node
import Stylesheet.Scope

/-! # Checking

A tree is checked in one walk that keeps the type of every bound variable. All
problems are reported, not only the first. A type that cannot be determined is
`none`; the problem has then been reported where the type was lost.
-/

namespace Stylesheet

/-- The types that a property takes; none for an unknown property. -/
def propertyTypes? : String → Option (List ValueType)
  | "background-color" => some [.color]
  | "color" => some [.color]
  | "width" => some [.quantity .pixel, .quantity .percentage]
  | "height" => some [.quantity .pixel]
  | _ => none

abbrev TypeScope := Scope (Option ValueType)

namespace Expr

/-- Whether an expression is a color or truth value written out. -/
def isPlainLiteral : Expr → Bool
  | literal (.color _) _ => true
  | literal (.boolean _) _ => true
  | _ => false

def plainOperand (path : TreePath) (operand : Expr) : Diagnostic :=
  ⟨path, operand.span, "color/boolean literals are not allowed in operations"⟩

def operationType : Operator → Option ValueType → Option ValueType →
    Except String (Option ValueType)
  | .multiply, left, right =>
    if left = some (.quantity .scalar) then .ok right
    else if right = some (.quantity .scalar) then .ok left
    else .error ("multiply operation can only be used with a scalar and a non-scalar expression" ++
      " or scalar and scalar")
  | _, left, right =>
    if left = right then .ok left
    else .error "operation can only be used with expressions of the same type"

def referenceType (scope : TypeScope) (path : TreePath) (name : String) (span : Span) :
    Option ValueType × List Diagnostic :=
  match scope.find? name with
  | some type => (type, [])
  | none => (none, [⟨path, span, "variable '" ++ name ++ "' is not defined in current scope"⟩])

/-- The type of an expression, with the diagnostics that it gives rise to. -/
def infer (scope : TypeScope) : TreePath → Expr → Option ValueType × List Diagnostic
  | _, literal value _ => (some value.type, [])
  | path, reference name span => referenceType scope path name span
  | path, operation operator left right span =>
    if left.isPlainLiteral then (none, [plainOperand (path.child 0) left])
    else if right.isPlainLiteral then (none, [plainOperand (path.child 1) right])
    else
      let (leftType, leftReports) := infer scope (path.child 0) left
      let (rightType, rightReports) := infer scope (path.child 1) right
      match operationType operator leftType rightType with
      | .ok type => (type, leftReports ++ rightReports)
      | .error message => (none, leftReports ++ rightReports ++ [⟨path, span, message⟩])

/-- The diagnostics of a condition, which is a truth value or a variable of
that type. -/
def inferCondition (scope : TypeScope) (path : TreePath) (condition : Expr) : List Diagnostic :=
  let refusal : Diagnostic :=
    ⟨path, condition.span, "if clause can only contain boolean expressions"⟩
  match condition with
  | literal value _ => if value.type = .boolean then [] else [refusal]
  | reference name span =>
    let (type, reports) := referenceType scope path name span
    if type = some .boolean then reports else reports ++ [refusal]
  | operation .. => [refusal]

end Expr

/-- What is known in the middle of a check: the types in scope and the
diagnostics so far. -/
structure Checking where
  scope : TypeScope
  reports : List Diagnostic

abbrev CheckM := EStateM Fault Checking

inductive BlockKind where
  | rule
  | conditional
  | alternative
  deriving DecidableEq

def BlockKind.refusal : BlockKind → String
  | rule => "rule body can only contain declarations, bindings, and conditionals"
  | conditional =>
    "conditional body can only contain declarations, bindings, conditionals and alternatives"
  | alternative => "alternative body can only contain declarations, bindings and conditionals"

namespace CheckM

def report (diagnostics : List Diagnostic) : CheckM Unit :=
  modify fun state => { state with reports := state.reports ++ diagnostics }

def inFrame (check : CheckM Unit) : CheckM Unit := do
  modify fun state => { state with scope := state.scope.push }
  check
  modify fun state => { state with scope := state.scope.pop }

/-- The type of an expression in the current scope, reporting its problems. -/
def typeOf (path : TreePath) (value : Expr) : CheckM (Option ValueType) := do
  let (type, reports) := value.infer (← get).scope path
  report reports
  return type

def bind (name : String) (type : Option ValueType) (position : Position) : CheckM Unit := do
  let state ← get
  match state.scope.bind name type position with
  | .ok scope => set { state with scope }
  | .error fault => throw fault

def checkBinding (path : TreePath) (name : String) (value : Expr) (span : Span) :
    CheckM Unit := do
  let type ← typeOf (path.child 0) value
  bind name type span.start

/-- Why a property does not take a type, if it does not. -/
def declarationProblem? (property : String) (type : ValueType) : Option String :=
  match propertyTypes? property with
  | none => some "unknown property name"
  | some types =>
    if type ∈ types then none
    else some ("only " ++ " and ".intercalate (types.map ValueType.name) ++
      " expressions are allowed for " ++ property)

def checkDeclaration (path : TreePath) (property : String) (value : Expr) (span : Span) :
    CheckM Unit := do
  match ← typeOf (path.child 0) value with
  | none => return
  | some type =>
    report ((declarationProblem? property type).toList.map fun message => ⟨path, span, message⟩)

mutual

def checkItem (kind : BlockKind) (path : TreePath) : Node → CheckM Unit
  | .declaration property value span => checkDeclaration path property value span
  | .binding name value span => checkBinding path name value span
  | .conditional condition body otherwise _ => do
    inFrame do
      report (condition.inferCondition (← get).scope (path.child 0))
      checkBody .conditional path 1 body
    match otherwise with
    | none => return
    | some ⟨items, _⟩ =>
      inFrame (checkBody .alternative (path.child (1 + body.length)) 0 items)
  | .alternative ⟨items, span⟩ =>
    if kind = .conditional then inFrame (checkBody .alternative path 0 items)
    else report [⟨path, span, kind.refusal⟩]
  | .rule _ _ span => report [⟨path, span, "nesting of rules is not supported"⟩]
  | .document _ span => report [⟨path, span, kind.refusal⟩]

/-- Check the items of a block whose first one is child `index` of its node. -/
def checkBody (kind : BlockKind) (path : TreePath) (index : Nat) : List Node → CheckM Unit
  | [] => return
  | item :: items => do
    checkItem kind (path.child index) item
    checkBody kind path (index + 1) items

end

def checkChild (path : TreePath) : Node → CheckM Unit
  | .binding name value span => checkBinding path name value span
  | .rule _ body _ => inFrame (checkBody .rule path 0 body)
  | other =>
    report [⟨path, other.span, "only variable bindings and rules allowed at document level"⟩]

def checkChildren (index : Nat) : List Node → CheckM Unit
  | [] => return
  | child :: children => do
    checkChild (TreePath.root.child index) child
    checkChildren (index + 1) children

def checkRoot : Node → CheckM Unit
  | .document children _ => inFrame (checkChildren 0 children)
  | root => throw root.notDocument

end CheckM

/-- The diagnostics of a tree in the order of its nodes. -/
def check (root : Node) : Except Fault (List Diagnostic) :=
  match CheckM.checkRoot root ⟨.empty, []⟩ with
  | .ok _ state => .ok (Diagnostic.sort state.reports)
  | .error fault _ => .error fault

end Stylesheet
