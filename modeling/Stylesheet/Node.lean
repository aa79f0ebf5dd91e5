import Stylesheet.Expr
import Stylesheet.Fault

/-! # Syntax trees

A document holds variable bindings and rules. Rules and the branches of
conditionals hold declarations, bindings and further conditionals. The type
admits every node in every place; which places are right is for checking to
say.
-/

namespace Stylesheet

structure Selector where
  text : String
  span : Span
  deriving DecidableEq

structure Block (α : Type) where
  items : List α
  span : Span

inductive Node where
  | document (children : List Node) (span : Span)
  | rule (selectors : List Selector) (body : List Node) (span : Span)
  | conditional (condition : Expr) (body : List Node) (otherwise : Option (Block Node))
      (span : Span)
  /-- The branch taken when a condition fails, standing on its own. -/
  | alternative (branch : Block Node)
  | declaration (property : String) (value : Expr) (span : Span)
  | binding (name : String) (value : Expr) (span : Span)

namespace Node

def noun : Node → String
  | document .. => "document"
  | rule .. => "rule"
  | conditional .. => "conditional"
  | alternative _ => "alternative"
  | declaration .. => "property set"
  | binding .. => "variable binding"

def span : Node → Span
  | document _ span => span
  | rule _ _ span => span
  | conditional _ _ _ span => span
  | alternative branch => branch.span
  | declaration _ _ span => span
  | binding _ _ span => span

/-- The fault of a tree with this root, which is not a document. -/
def notDocument (root : Node) : Fault := ⟨.rootNotDocument root.noun, root.span.start⟩

def literal? : Node → Option Literal
  | conditional condition .. => condition.literal?
  | declaration _ value _ => value.literal?
  | binding _ value _ => value.literal?
  | _ => none

mutual

/-- Whether two nodes are equal but for their spans. -/
def same : Node → Node → Bool
  | document xs _, document ys _ => sameItems xs ys
  | rule ss xs _, rule ts ys _ => ss.map (·.text) = ts.map (·.text) && sameItems xs ys
  | conditional c xs none _, conditional d ys none _ => c.same d && sameItems xs ys
  | conditional c xs (some ⟨as, _⟩) _, conditional d ys (some ⟨bs, _⟩) _ =>
    c.same d && sameItems xs ys && sameItems as bs
  | alternative ⟨xs, _⟩, alternative ⟨ys, _⟩ => sameItems xs ys
  | declaration p v _, declaration q w _ => p = q && v.same w
  | binding x v _, binding y w _ => x = y && v.same w
  | _, _ => false

def sameItems : List Node → List Node → Bool
  | [], [] => true
  | x :: xs, y :: ys => x.same y && sameItems xs ys
  | _, _ => false

end

end Node

end Stylesheet
