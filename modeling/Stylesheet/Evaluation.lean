import Stylesheet.Event
import Stylesheet.Node
import Stylesheet.Scope

/-! # Evaluation

Evaluation leaves a document of rules whose bodies hold declarations only: each
expression is folded to a literal, each conditional is replaced by the items of
the branch it chooses, and bindings disappear. What cannot be folded or does
not belong where it stands is left out of the result, or left as it is, and
logged. An evaluator puts the result in the place of the tree.
-/

namespace Stylesheet

/-- The value of an expression, if all its variables are bound and all its
operations have results. -/
def Expr.fold? (scope : Scope Literal) : Expr → Option Literal
  | literal value _ => some value
  | reference name _ => scope.find? name
  | operation operator left right _ =>
    (left.fold? scope).bind fun l => (right.fold? scope).bind fun r => operator.fold? l r

/-- What is known in the middle of an evaluation: the values in scope and the
events so far. -/
structure Evaluation where
  scope : Scope Literal
  log : List Event

abbrev EvalM := EStateM Fault Evaluation

namespace EvalM

def emit (event : Event) : EvalM Unit :=
  modify fun state => { state with log := state.log ++ [event] }

def inFrame {α : Type} (evaluate : EvalM α) : EvalM α := do
  modify fun state => { state with scope := state.scope.push }
  let result ← evaluate
  modify fun state => { state with scope := state.scope.pop }
  return result

def valueOf (value : Expr) : EvalM (Option Literal) :=
  return value.fold? (← get).scope

def bind (name : String) (value : Literal) (position : Position) : EvalM Unit := do
  let state ← get
  match state.scope.bind name value position with
  | .ok scope => set { state with scope }
  | .error fault => throw fault

def evaluateBinding (name : String) (value : Expr) (span : Span) : EvalM Unit := do
  match ← valueOf value with
  | some literal => bind name literal span.start
  | none => emit (.unfoldedBinding name)

/-- A declaration with its value folded, or as it is where that fails. -/
def evaluateDeclaration (property : String) (value : Expr) (span : Span) : EvalM Node := do
  match ← valueOf value with
  | some literal => return .declaration property (.literal literal value.span) span
  | none =>
    emit (.unfoldedDeclaration property)
    return .declaration property value span

mutual

/-- The declarations that an item of a block leaves. -/
def evaluateItem : Node → EvalM (List Node)
  | .declaration property value span => return [← evaluateDeclaration property value span]
  | .binding name value span => do
    evaluateBinding name value span
    return []
  | .conditional condition body otherwise _ => do
    match ← valueOf condition with
    | some (.boolean true) => inFrame (evaluateBody body)
    | some (.boolean false) =>
      match otherwise with
      | none => return []
      | some ⟨items, _⟩ => inFrame (evaluateBody items)
    | other =>
      emit (.undecidedCondition other)
      return []
  | other => do
    emit (.droppedNode other.noun)
    return []

def evaluateBody : List Node → EvalM (List Node)
  | [] => return []
  | item :: items => do
    let first ← evaluateItem item
    let later ← evaluateBody items
    return first ++ later

end

def evaluateChild : Node → EvalM (List Node)
  | .binding name value span => do
    evaluateBinding name value span
    return []
  | .rule selectors body span => return [.rule selectors (← inFrame (evaluateBody body)) span]
  | other => do
    emit (.droppedNode other.noun)
    return []

def evaluateChildren : List Node → EvalM (List Node)
  | [] => return []
  | child :: children => do
    let first ← evaluateChild child
    let later ← evaluateChildren children
    return first ++ later

def evaluateRoot (root : Node) : EvalM Node := do
  modify fun state => { state with scope := .empty }
  match root with
  | .document children span => return .document (← inFrame (evaluateChildren children)) span
  | other => throw other.notDocument

end EvalM

/-- A fresh evaluation of a tree: its result and the events on the way. -/
def evaluate (root : Node) : Except Fault Node × List Event :=
  match EvalM.evaluateRoot root ⟨.empty, []⟩ with
  | .ok node state => (.ok node, state.log)
  | .error fault state => (.error fault, state.log)

/-- How an evaluation in place ends, the tree that it leaves in the place of the
given one, and the events on the way. -/
structure Applied where
  result : Except Fault Unit
  tree : Node
  log : List Event

/-- What is kept from one evaluation in place to the next. -/
structure Evaluator where
  scope : Scope Literal

namespace Evaluator

def fresh : Evaluator := ⟨.empty⟩

def value? (evaluator : Evaluator) (e : Expr) : Option Literal := e.fold? evaluator.scope

/-- What a fault leaves of a tree: the children of a document have been taken out
of it by then. -/
def remains : Node → Node
  | .document _ span => .document [] span
  | other => other

def apply (evaluator : Evaluator) (root : Node) : Applied × Evaluator :=
  match EvalM.evaluateRoot root ⟨evaluator.scope, []⟩ with
  | .ok node state => (⟨.ok (), node, state.log⟩, ⟨state.scope⟩)
  | .error fault state => (⟨.error fault, remains root, state.log⟩, ⟨state.scope⟩)

end Evaluator

end Stylesheet
