import Stylesheet.Proofs.Course

/-! # Lexical scoping

A reference interpreter evaluates blocks in an immutable environment. Each item
is read in the environment behind the items before it, and what a block binds is
forgotten at its end. Evaluation with a stack of frames computes the same.
-/

namespace Stylesheet

def Node.header? : Node → Option (List Selector × Span)
  | rule selectors _ span => some (selectors, span)
  | _ => none

namespace Lexical

mutual

/-- What an item of a block leaves in an environment. -/
def item (env : Env Literal) : Node → List Node
  | .declaration property value span => [.declaration property (value.foldedIn env) span]
  | .conditional condition body otherwise _ =>
    match condition.valueIn env with
    | some (.boolean true) => Lexical.body env body
    | some (.boolean false) =>
      match otherwise with
      | none => []
      | some ⟨items, _⟩ => Lexical.body env items
    | _ => []
  | _ => []

def body (env : Env Literal) : List Node → List Node
  | [] => []
  | first :: later => item env first ++ body (env.behind first) later

end

def children (env : Env Literal) : List Node → List Node
  | [] => []
  | .rule selectors items span :: later =>
    .rule selectors (body env items) span :: children env later
  | child :: later => children (env.behind child) later

mutual

theorem item_eq_course (context : Context) (node : Node) :
    item context.values node = (context.visitItem node).filterMap Visit.node? := by
  match node with
  | .conditional condition items otherwise span =>
    unfold item Context.visitItem
    match condition.valueIn context.values with
    | some (.boolean true) =>
      rw [List.filterMap_cons_none rfl]
      exact body_eq_course context items
    | some (.boolean false) =>
      match otherwise with
      | none => rfl
      | some ⟨items, _⟩ =>
        rw [List.filterMap_cons_none rfl]
        exact body_eq_course context items
    | none => rfl
    | some (.color _) => rfl
    | some (.quantity _ _) => rfl
  | .declaration _ _ _ => rfl
  | .binding _ _ _ => rfl
  | .document _ _ => rfl
  | .rule _ _ _ => rfl
  | .alternative _ => rfl

theorem body_eq_course (context : Context) (items : List Node) :
    body context.values items = (context.visitBody items).filterMap Visit.node? := by
  match items with
  | [] => rfl
  | first :: later =>
    rw [body, Context.visitBody, List.filterMap_append, item_eq_course context first,
      ← Context.values_behind, body_eq_course (context.behind first) later]

end

theorem header?_children (env : Env Literal) (nodes : List Node) :
    (children env nodes).map Node.header? = (nodes.filterMap Node.header?).map some := by
  induction nodes generalizing env with
  | nil => rfl
  | cons node nodes ih => cases node <;> simp [children, List.filterMap_cons, Node.header?, ih]

end Lexical

namespace EvalM

variable {scope : Scope Literal} {context : Context} {log : List Event}

theorem evaluateChild_run (h : scope.Reads context) (child : Node) :
    evaluateChild child ⟨scope, log⟩ =
      .ok (Lexical.children context.values [child])
        ⟨scope.behind child, log ++ (context.visitChildren [child]).filterMap Visit.event?⟩ := by
  cases child with
  | binding name value span =>
    simp only [evaluateChild, bind_of_ok (evaluateBinding_run h name value span)]
    rfl
  | rule selectors body span =>
    simp only [evaluateChild, bind_of_ok (inFrame_run (evaluateBody_run h.push body)),
      Scope.pop_foldl_behind, ← Lexical.body_eq_course]
    simp [Lexical.children, Context.visitChildren, Scope.behind, pure, EStateM.pure]
  | _ => rfl

theorem evaluateChildren_run {scope : Scope Literal} {context : Context} {log : List Event}
    (h : scope.Reads context) (children : List Node) :
    evaluateChildren children ⟨scope, log⟩ =
      .ok (Lexical.children context.values children)
        ⟨children.foldl Scope.behind scope,
          log ++ (context.visitChildren children).filterMap Visit.event?⟩ := by
  induction children generalizing scope context log with
  | nil => simp [evaluateChildren, Lexical.children, Context.visitChildren, pure, EStateM.pure]
  | cons child children ih =>
    rw [evaluateChildren, bind_of_ok (evaluateChild_run h child),
      bind_of_ok (ih (h.behind child)), Context.values_behind]
    simp only [pure, EStateM.pure, List.foldl_cons, List.append_assoc,
      ← List.filterMap_append]
    congr
    · cases child <;> rfl
    · cases child <;> simp [Context.visitChildren, Context.behind]

theorem evaluateRoot_document (children : List Node) (span : Span) :
    evaluateRoot (.document children span) ⟨scope, log⟩ =
      .ok (.document (Lexical.children Env.empty children) span)
        ⟨.empty, log ++ (Node.document children span).course.filterMap Visit.event?⟩ := by
  change (inFrame (evaluateChildren children) >>= fun rules =>
    return Node.document rules span) ⟨.empty, log⟩ = _
  rw [bind_of_ok (inFrame_run (evaluateChildren_run .start children)), Scope.pop_foldl_behind]
  rfl

end EvalM

/-- An evaluation leaves what the reference interpreter leaves, and logs the
events of its course. -/
theorem evaluate_document (children : List Node) (span : Span) :
    evaluate (.document children span) =
      (.ok (.document (Lexical.children Env.empty children) span),
        (Node.document children span).course.filterMap Visit.event?) := by
  rw [evaluate, EvalM.evaluateRoot_document, List.nil_append]

/-- The evaluation of a document never fails. It leaves the rules of the document
in their order, with their selectors and spans, each with the body that lexical
scoping gives it. -/
theorem evaluate_lexical (children : List Node) (span : Span) :
    (evaluate (.document children span)).1 =
        .ok (.document (Lexical.children Env.empty children) span) ∧
      (Lexical.children Env.empty children).map Node.header? =
        (children.filterMap Node.header?).map some := by
  rw [evaluate_document]
  exact ⟨rfl, Lexical.header?_children Env.empty children⟩

end Stylesheet
