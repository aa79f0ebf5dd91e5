import Mathlib.Data.List.Basic
import Stylesheet.Css
import Stylesheet.Proofs.Lexical

/-! # Declarations of trees

The declarations of a tree at any depth, and those that are printed. In an
evaluated document both are those of the course of the evaluation, in the order
of the course.
-/

namespace Stylesheet

namespace Node

mutual

/-- The declarations of a tree, each a property with its value. -/
def declarations : Node → List (String × Expr)
  | document children _ => declarationsOf children
  | rule _ body _ => declarationsOf body
  | conditional _ body none _ => declarationsOf body
  | conditional _ body (some ⟨items, _⟩) _ => declarationsOf body ++ declarationsOf items
  | alternative ⟨items, _⟩ => declarationsOf items
  | declaration property value _ => [(property, value)]
  | binding _ _ _ => []

def declarationsOf : List Node → List (String × Expr)
  | [] => []
  | node :: nodes => node.declarations ++ declarationsOf nodes

end

theorem declarationsOf_eq_flatMap (nodes : List Node) :
    declarationsOf nodes = nodes.flatMap declarations := by
  induction nodes with
  | nil => rfl
  | cons node nodes ih => rw [declarationsOf, ih, List.flatMap_cons]

end Node

namespace Css

/-- The declaration that an item of a rule is printed as. -/
def printed? : Node → Option (String × Literal)
  | .declaration property (.literal value _) _ => some (property, value)
  | _ => none

def line (declaration : String × Literal) : String :=
  "  " ++ declaration.1 ++ ": " ++ declaration.2.render ++ ";\n"

/-- A rule as it is printed: the texts of its selectors and its declarations. -/
structure Block where
  selectors : List String
  declarations : List (String × Literal)

def Block.text (block : Block) : String :=
  ",\n".intercalate block.selectors ++ " \x7b\n" ++ String.join (block.declarations.map line) ++
    "\x7d\n\n"

def blocksOf : Node → List Block
  | .rule selectors body _ => [⟨selectors.map (·.text), body.filterMap printed?⟩]
  | _ => []

def blocks : Node → List Block
  | .document children _ => children.flatMap blocksOf
  | _ => []

def printed (root : Node) : List (String × Literal) := (blocks root).flatMap Block.declarations

theorem join_map_eq_join_flatMap {α β : Type} {text : α → String} {parts : α → List β}
    {part : β → String} (h : ∀ x, text x = String.join ((parts x).map part)) (xs : List α) :
    String.join (xs.map text) = String.join ((xs.flatMap parts).map part) := by
  induction xs with
  | nil => rfl
  | cons x xs ih =>
    rw [List.map_cons, String.join_cons, List.flatMap_cons, List.map_append, String.join_append,
      h x, ih]

theorem renderItem_eq_join_line (item : Node) :
    renderItem item = String.join ((printed? item).toList.map line) := by
  unfold renderItem printed?
  split <;> simp [line]

theorem renderChild_eq_join_text (child : Node) :
    renderChild child = String.join ((blocksOf child).map Block.text) := by
  cases child with
  | rule selectors body span =>
    rw [renderChild, join_map_eq_join_flatMap renderItem_eq_join_line]
    simp [blocksOf, Block.text, List.filterMap_eq_flatMap_toList]
  | _ => simp [renderChild, blocksOf]

theorem render_document (children : List Node) (span : Span) :
    (render (.document children span)).1 =
      .ok (String.join ((blocks (.document children span)).map Block.text)) := by
  rw [render, join_map_eq_join_flatMap renderChild_eq_join_text, blocks]

end Css

theorem Expr.literal?_foldedIn (env : Env Literal) (e : Expr) :
    (e.foldedIn env).literal? = e.valueIn env := by
  rw [foldedIn]
  cases hv : e.valueIn env with
  | some value => rfl
  | none =>
    cases e with
    | literal value span => cases hv
    | reference name span => rfl
    | operation operator left right span => rfl

namespace Visit

def declaration? : Visit → Option (String × Expr)
  | declares context property value _ => some (property, value.foldedIn context.values)
  | _ => none

def printed? : Visit → Option (String × Literal)
  | declares context property value _ =>
    (value.valueIn context.values).map fun literal => (property, literal)
  | _ => none

def skipped? : Visit → Option Event
  | declares context property value _ =>
    if value.valueIn context.values = none then some (.skippedDeclaration property) else none
  | _ => none

theorem declarationsOf_node? (visits : List Visit) :
    Node.declarationsOf (visits.filterMap node?) = visits.filterMap declaration? := by
  induction visits with
  | nil => rfl
  | cons visit visits ih =>
    cases visit with
    | declares context property value span =>
      change Node.declarationsOf (.declaration property (value.foldedIn context.values) span ::
        visits.filterMap node?) = _
      rw [Node.declarationsOf, ih]
      rfl
    | _ => exact ih

theorem printed?_node? (visit : Visit) : visit.node?.bind Css.printed? = visit.printed? := by
  cases visit with
  | declares context property value span =>
    rw [node?, Option.bind_some, printed?, ← Expr.literal?_foldedIn]
    cases value.foldedIn context.values <;> rfl
  | _ => rfl

theorem skipped?_node? (visit : Visit) : visit.node?.bind Css.skipped? = visit.skipped? := by
  cases visit with
  | declares context property value span =>
    rw [node?, Option.bind_some, skipped?, ← Expr.literal?_foldedIn]
    cases value.foldedIn context.values <;> rfl
  | _ => rfl

end Visit

namespace Lexical

/-- What is read off the rules of an evaluated document can be read off the
course of the evaluation. -/
theorem flatMap_children {β : Type} {ofChild : Node → List β} {ofVisit : Visit → Option β}
    (hbinds : ∀ context name value, ofVisit (.binds context name value) = none)
    (hdrops : ∀ noun, ofVisit (.drops noun) = none)
    (hrule : ∀ selectors (visits : List Visit) span,
      ofChild (.rule selectors (visits.filterMap Visit.node?) span) = visits.filterMap ofVisit)
    (context : Context) (nodes : List Node) :
    (children context.values nodes).flatMap ofChild =
      (context.visitChildren nodes).filterMap ofVisit := by
  induction nodes generalizing context with
  | nil => rfl
  | cons node nodes ih =>
    cases node with
    | binding name value span =>
      change (children (context.values.behind (.binding name value span)) nodes).flatMap ofChild = _
      rw [← Context.values_behind, ih, Context.visitChildren, List.filterMap_cons_none (hbinds ..)]
    | rule selectors items span =>
      rw [children, List.flatMap_cons, body_eq_course, hrule, ih, Context.visitChildren,
        List.filterMap_append]
    | _ => exact (ih context).trans (List.filterMap_cons_none (hdrops _)).symm

theorem declarationsOf_children (context : Context) (nodes : List Node) :
    Node.declarationsOf (children context.values nodes) =
      (context.visitChildren nodes).filterMap Visit.declaration? := by
  rw [Node.declarationsOf_eq_flatMap]
  refine flatMap_children (fun _ _ _ => rfl) (fun _ => rfl) (fun _ visits _ => ?_) context nodes
  rw [Node.declarations, Visit.declarationsOf_node?]

theorem printed_children (context : Context) (nodes : List Node) :
    ((children context.values nodes).flatMap Css.blocksOf).flatMap Css.Block.declarations =
      (context.visitChildren nodes).filterMap Visit.printed? := by
  rw [List.flatMap_assoc]
  refine flatMap_children (fun _ _ _ => rfl) (fun _ => rfl) (fun _ visits _ => ?_) context nodes
  rw [Css.blocksOf, List.flatMap_singleton, List.filterMap_filterMap, funext Visit.printed?_node?]

theorem childEvents_children (context : Context) (nodes : List Node) :
    (children context.values nodes).flatMap Css.childEvents =
      (context.visitChildren nodes).filterMap Visit.skipped? := by
  refine flatMap_children (fun _ _ _ => rfl) (fun _ => rfl) (fun _ visits _ => ?_) context nodes
  rw [Css.childEvents, List.filterMap_filterMap, funext Visit.skipped?_node?]

end Lexical

end Stylesheet
