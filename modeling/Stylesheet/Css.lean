import Stylesheet.Event
import Stylesheet.Node

/-! # Printing style sheets

An evaluated document is printed rule by rule. A declaration whose value is not
a literal is left out and logged; nodes of other kinds are left out.
-/

namespace Stylesheet.Css

def renderItem : Node → String
  | .declaration property (.literal value _) _ => "  " ++ property ++ ": " ++ value.render ++ ";\n"
  | _ => ""

/-- The event of leaving an item of a rule out. -/
def skipped? : Node → Option Event
  | .declaration _ (.literal ..) _ => none
  | .declaration property _ _ => some (.skippedDeclaration property)
  | _ => none

def renderChild : Node → String
  | .rule selectors body _ =>
    ",\n".intercalate (selectors.map (·.text)) ++ " \x7b\n" ++ String.join (body.map renderItem) ++
      "\x7d\n\n"
  | _ => ""

def childEvents : Node → List Event
  | .rule _ body _ => body.filterMap skipped?
  | _ => []

/-- The text of a document and the events of printing it. -/
def render : Node → Except Fault String × List Event
  | .document children _ =>
    (.ok (String.join (children.map renderChild)), children.flatMap childEvents)
  | root => (.error root.notDocument, [])

end Stylesheet.Css
