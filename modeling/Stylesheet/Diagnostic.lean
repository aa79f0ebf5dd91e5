import Stylesheet.Excerpt

/-! # Diagnostics

A diagnostic reports a problem with one node of a tree. The node is addressed
by the child indices on the way from the root, and diagnostics are presented in
the order of these addresses, a node before its children.
-/

namespace Stylesheet

/-- The address of a node: child indices from the root down. -/
abbrev TreePath := List Nat

namespace TreePath

def root : TreePath := []

def child (path : TreePath) (index : Nat) : TreePath := path ++ [index]

def depth (path : TreePath) : Nat := path.length

/-- Lexicographic order, a path before its extensions. -/
def order : TreePath → TreePath → Ordering
  | [], [] => .eq
  | [], _ :: _ => .lt
  | _ :: _, [] => .gt
  | i :: p, j :: q => (compare i j).then (order p q)

def le (p q : TreePath) : Bool := (order p q).isLE

end TreePath

structure Diagnostic where
  path : TreePath
  span : Span
  message : String
  deriving DecidableEq

namespace Diagnostic

def headline (diagnostic : Diagnostic) : String := "ERROR: " ++ diagnostic.message

def display (diagnostic : Diagnostic) (source : String) : String :=
  excerpt source diagnostic.span.start.file diagnostic.span.start.offset diagnostic.headline

/-- Diagnostics in the order of their nodes. Those of one node keep their order. -/
def sort (diagnostics : List Diagnostic) : List Diagnostic :=
  diagnostics.mergeSort fun a b => TreePath.le a.path b.path

end Diagnostic

end Stylesheet
