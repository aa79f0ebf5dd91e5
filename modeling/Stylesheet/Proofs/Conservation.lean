import Stylesheet.Proofs.Placement

/-! # What becomes of declarations

An evaluation reaches the declarations of rules and of the branches it chooses. It
keeps all of them, in their order, and printing then either prints a line for a
declaration or logs that it is skipped. The skipped declarations are those that
the evaluation has logged as unfolded.
-/

namespace Stylesheet

def Node.property? : Node → Option String
  | declaration property _ _ => some property
  | _ => none

/-- The properties of the declarations that an evaluation reaches, in the order in
which it reaches them. -/
def Node.reached : Node → List String
  | document children _ =>
    (Lexical.metChildren Env.empty children).filterMap fun met => met.2.property?
  | _ => []

def Event.unfolded? : Event → Option String
  | unfoldedDeclaration property => some property
  | _ => none

namespace Visit

def property? : Visit → Option String
  | declares _ property _ _ => some property
  | _ => none

theorem map_declaration? (visit : Visit) : visit.declaration?.map Prod.fst = visit.property? := by
  cases visit <;> rfl

theorem skipped?_eq_unfolded? (visit : Visit) :
    visit.skipped? = (visit.event?.bind Event.unfolded?).map .skippedDeclaration := by
  cases visit with
  | declares context property value span =>
    rw [skipped?, event?]
    split <;> rfl
  | binds context name value =>
    rw [event?]
    split <;> rfl
  | decides context condition =>
    rw [event?]
    split <;> rfl
  | drops noun => rfl

theorem length_printed?_add_skipped? (visit : Visit) :
    visit.printed?.toList.length + visit.skipped?.toList.length =
      visit.property?.toList.length := by
  cases visit with
  | declares context property value span =>
    rw [printed?, skipped?]
    cases value.valueIn context.values <;> rfl
  | _ => rfl

theorem length_printed_add_skipped (visits : List Visit) :
    (visits.filterMap printed?).length + (visits.filterMap skipped?).length =
      (visits.filterMap property?).length := by
  simp only [List.filterMap_eq_flatMap_toList]
  induction visits with
  | nil => rfl
  | cons visit visits ih =>
    have hv := visit.length_printed?_add_skipped?
    simp only [List.flatMap_cons, List.length_append]
    omega

end Visit

section Reached

mutual

/-- The course of an item goes through the declarations that are met from it on. -/
theorem property?_visitItem (context : Context) (kind : BlockKind) (item : Node) :
    (context.visitItem item).filterMap Visit.property? =
      (Lexical.metItem context.values kind item).filterMap fun met => met.2.property? := by
  match item with
  | .conditional condition body otherwise span =>
    unfold Context.visitItem Lexical.metItem
    rw [List.filterMap_cons_none rfl, List.filterMap_cons_none rfl]
    match condition.valueIn context.values with
    | some (.boolean true) => exact property?_visitBody context .conditional body
    | some (.boolean false) =>
      match otherwise with
      | none => rfl
      | some ⟨items, _⟩ => exact property?_visitBody context .alternative items
    | none => rfl
    | some (.color _) => rfl
    | some (.quantity _ _) => rfl
  | .declaration _ _ _ => rfl
  | .binding _ _ _ => rfl
  | .document _ _ => rfl
  | .rule _ _ _ => rfl
  | .alternative _ => rfl

theorem property?_visitBody (context : Context) (kind : BlockKind) (items : List Node) :
    (context.visitBody items).filterMap Visit.property? =
      (Lexical.metBody context.values kind items).filterMap fun met => met.2.property? := by
  match items with
  | [] => rfl
  | item :: items =>
    rw [Context.visitBody, Lexical.metBody, List.filterMap_append, List.filterMap_append,
      property?_visitItem context kind item, property?_visitBody (context.behind item) kind items,
      Context.values_behind]

end

theorem property?_visitChildren (context : Context) (children : List Node) :
    (context.visitChildren children).filterMap Visit.property? =
      (Lexical.metChildren context.values children).filterMap fun met => met.2.property? := by
  induction children generalizing context with
  | nil => rfl
  | cons child children ih =>
    cases child with
    | binding name value span =>
      rw [Context.visitChildren, List.filterMap_cons_none rfl, ih, Context.values_behind]
      rfl
    | rule selectors body span =>
      rw [Context.visitChildren, Lexical.metChildren, List.filterMap_append, List.filterMap_append,
        property?_visitBody context .rule body, ih]
    | _ => exact ih context

end Reached

theorem Node.property?_course (root : Node) :
    root.course.filterMap Visit.property? = root.reached := by
  cases root with
  | document children span => exact property?_visitChildren Context.start children
  | _ => rfl

/-- Every declaration that an evaluation reaches is printed or logged. The evaluated
document has the declarations that were reached, in their order. Printing it skips
those that the evaluation logged as unfolded, with as many events in the same order,
and prints a line for each of the others. -/
theorem reached_printed_or_logged (children : List Node) (span : Span) :
    ∃ evaluated log css printLog,
      evaluate (.document children span) = (.ok evaluated, log) ∧
      Css.render evaluated = (.ok css, printLog) ∧
      css = String.join ((Css.blocks evaluated).map Css.Block.text) ∧
      evaluated.declarations.map Prod.fst = (Node.document children span).reached ∧
      printLog = (log.filterMap Event.unfolded?).map .skippedDeclaration ∧
      (Css.printed evaluated).length + printLog.length =
        (Node.document children span).reached.length := by
  have hr := readOff_document children span
  refine ⟨_, _, _, _, hr.evaluate_eq, hr.render_eq, rfl, ?_, ?_, ?_⟩
  · rw [hr.declarations_eq, List.map_filterMap, funext Visit.map_declaration?,
      Node.property?_course]
  · rw [List.filterMap_filterMap, List.map_filterMap, funext Visit.skipped?_eq_unfolded?]
  · rw [hr.printed_eq, Visit.length_printed_add_skipped, Node.property?_course]

end Stylesheet
