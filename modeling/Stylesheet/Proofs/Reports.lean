import Stylesheet.Proofs.Typing

/-! # The diagnostics of a tree

The walk that checks a tree carries a scope and a list of diagnostics. Here the
diagnostics are a function of the tree and of the types around it, and the walk
is shown to collect them. It fails only where the root is not a document.
-/

namespace Stylesheet

def TypeScope.behind (scope : TypeScope) : Node → TypeScope
  | .binding name value _ => scope.insert name (value.infer scope .root).1
  | _ => scope

def declarationReports (scope : TypeScope) (path : TreePath) (property : String) (value : Expr)
    (span : Span) : List Diagnostic :=
  (value.infer scope (path.child 0)).2 ++
    match (value.infer scope (path.child 0)).1 with
    | none => []
    | some type =>
      (CheckM.declarationProblem? property type).toList.map fun message => ⟨path, span, message⟩

mutual

def itemReports (scope : TypeScope) (kind : BlockKind) (path : TreePath) :
    Node → List Diagnostic
  | .declaration property value span => declarationReports scope path property value span
  | .binding _ value _ => (value.infer scope (path.child 0)).2
  | .conditional condition body otherwise _ =>
    condition.inferCondition scope.push (path.child 0) ++
      bodyReports scope.push .conditional path 1 body ++
      match otherwise with
      | none => []
      | some ⟨items, _⟩ =>
        bodyReports scope.push .alternative (path.child (1 + body.length)) 0 items
  | .alternative ⟨items, span⟩ =>
    if kind = .conditional then bodyReports scope.push .alternative path 0 items
    else [⟨path, span, kind.refusal⟩]
  | .rule _ _ span => [⟨path, span, "nesting of rules is not supported"⟩]
  | .document _ span => [⟨path, span, kind.refusal⟩]

/-- The diagnostics of the items of a block whose first one is child `index`. -/
def bodyReports (scope : TypeScope) (kind : BlockKind) (path : TreePath) (index : Nat) :
    List Node → List Diagnostic
  | [] => []
  | item :: items =>
    itemReports scope kind (path.child index) item ++
      bodyReports (scope.behind item) kind path (index + 1) items

end

def childReports (scope : TypeScope) (path : TreePath) : Node → List Diagnostic
  | .binding _ value _ => (value.infer scope (path.child 0)).2
  | .rule _ body _ => bodyReports scope.push .rule path 0 body
  | other => [⟨path, other.span, "only variable bindings and rules allowed at document level"⟩]

def childrenReports (scope : TypeScope) (index : Nat) : List Node → List Diagnostic
  | [] => []
  | child :: children =>
    childReports scope (TreePath.root.child index) child ++
      childrenReports (scope.behind child) (index + 1) children

/-- The inferred type does not depend on where an expression stands. -/
theorem Expr.fst_infer (scope : TypeScope) (e : Expr) (path path' : TreePath) :
    (e.infer scope path).1 = (e.infer scope path').1 := by
  induction e generalizing path path' with
  | literal value span => rfl
  | reference name span =>
    simp only [infer, referenceType]
    split <;> rfl
  | operation operator left right span ihl ihr =>
    simp only [infer]
    split_ifs
    · rfl
    · rfl
    · rw [ihl (path.child 0) (path'.child 0), ihr (path.child 1) (path'.child 1)]
      split <;> rfl

namespace TypeScope

theorem isEmpty_behind {scope : TypeScope} (h : scope.isEmpty = false) (item : Node) :
    (scope.behind item).isEmpty = false := by
  cases item with
  | binding name value span => rfl
  | _ => exact h

theorem pop_behind (scope : TypeScope) (item : Node) : (scope.behind item).pop = scope.pop := by
  cases item with
  | binding name value span => exact Scope.pop_insert scope name _
  | _ => rfl

theorem pop_foldl_behind (scope : TypeScope) (items : List Node) :
    (items.foldl behind scope).pop = scope.pop :=
  Scope.pop_foldl pop_behind scope items

end TypeScope

namespace CheckM

variable {scope : TypeScope} {reports : List Diagnostic}

theorem inFrame_run {check : CheckM Unit} {inner : TypeScope} {reports' : List Diagnostic}
    (h : check ⟨scope.push, reports⟩ = .ok () ⟨inner, reports'⟩) :
    inFrame check ⟨scope, reports⟩ = .ok () ⟨inner.pop, reports'⟩ := by
  change (check >>= fun _ => modify fun state => { state with scope := state.scope.pop })
    ⟨scope.push, reports⟩ = _
  rw [bind_of_ok h]
  rfl

theorem typeOf_run (path : TreePath) (value : Expr) :
    typeOf path value ⟨scope, reports⟩ =
      .ok (value.infer scope path).1 ⟨scope, reports ++ (value.infer scope path).2⟩ := rfl

theorem bind_run (h : scope.isEmpty = false) (name : String) (type : Option ValueType)
    (position : Position) :
    bind name type position ⟨scope, reports⟩ = .ok () ⟨scope.insert name type, reports⟩ := by
  have hg : (get : CheckM Checking) ⟨scope, reports⟩ = .ok ⟨scope, reports⟩ ⟨scope, reports⟩ := rfl
  rw [bind, bind_of_ok hg, Scope.bind_of_open h]
  rfl

theorem checkBinding_run (h : scope.isEmpty = false) (path : TreePath) (name : String)
    (value : Expr) (span : Span) :
    checkBinding path name value span ⟨scope, reports⟩ =
      .ok () ⟨scope.behind (.binding name value span),
        reports ++ (value.infer scope (path.child 0)).2⟩ := by
  rw [checkBinding, bind_of_ok (typeOf_run (path.child 0) value), bind_run h, TypeScope.behind,
    Expr.fst_infer scope value (path.child 0) .root]

theorem checkDeclaration_run (path : TreePath) (property : String) (value : Expr) (span : Span) :
    checkDeclaration path property value span ⟨scope, reports⟩ =
      .ok () ⟨scope, reports ++ declarationReports scope path property value span⟩ := by
  rw [checkDeclaration, bind_of_ok (typeOf_run (path.child 0) value), declarationReports]
  cases (value.infer scope (path.child 0)).1 with
  | none => simp [pure, EStateM.pure]
  | some type =>
    rw [← List.append_assoc]
    rfl

mutual

/-- An item adds its diagnostics. The scope is as it was but for a binding, since
a block closes the frame it opens. -/
theorem checkItem_run {scope : TypeScope} {reports : List Diagnostic}
    (h : scope.isEmpty = false) (kind : BlockKind) (path : TreePath) (item : Node) :
    checkItem kind path item ⟨scope, reports⟩ =
      .ok () ⟨scope.behind item, reports ++ itemReports scope kind path item⟩ := by
  match item with
  | .declaration property value span => exact checkDeclaration_run path property value span
  | .binding name value span => exact checkBinding_run h path name value span
  | .conditional condition body otherwise span =>
    have hc : (get >>= fun state => do
        report (condition.inferCondition state.scope (path.child 0))
        checkBody .conditional path 1 body : CheckM Unit) ⟨scope.push, reports⟩ = .ok () _ :=
      checkBody_run rfl .conditional path 1 body
    unfold checkItem itemReports
    rw [bind_of_ok (inFrame_run hc), TypeScope.pop_foldl_behind, Scope.pop_push]
    match otherwise with
    | none => simp [TypeScope.behind, pure, EStateM.pure]
    | some ⟨items, _⟩ =>
      simp only [TypeScope.pop_foldl_behind, Scope.pop_push,
        inFrame_run (checkBody_run rfl .alternative (path.child (1 + body.length)) 0 items)]
      simp [TypeScope.behind]
  | .alternative ⟨items, span⟩ =>
    unfold checkItem itemReports
    split_ifs
    · rw [inFrame_run (checkBody_run rfl .alternative path 0 items), TypeScope.pop_foldl_behind]
      rfl
    · rfl
  | .rule _ _ span => rfl
  | .document _ span => rfl

theorem checkBody_run {scope : TypeScope} {reports : List Diagnostic}
    (h : scope.isEmpty = false) (kind : BlockKind) (path : TreePath) (index : Nat)
    (items : List Node) :
    checkBody kind path index items ⟨scope, reports⟩ =
      .ok () ⟨items.foldl TypeScope.behind scope,
        reports ++ bodyReports scope kind path index items⟩ := by
  match items with
  | [] => simp [checkBody, bodyReports, pure, EStateM.pure]
  | item :: items =>
    rw [checkBody, bind_of_ok (checkItem_run h kind (path.child index) item),
      checkBody_run (TypeScope.isEmpty_behind h item) kind path (index + 1) items, bodyReports,
      List.append_assoc, List.foldl_cons]

end

theorem checkChild_run (h : scope.isEmpty = false) (path : TreePath) (child : Node) :
    checkChild path child ⟨scope, reports⟩ =
      .ok () ⟨scope.behind child, reports ++ childReports scope path child⟩ := by
  cases child with
  | binding name value span => exact checkBinding_run h path name value span
  | rule selectors body span =>
    simp only [checkChild, inFrame_run (checkBody_run rfl .rule path 0 body),
      TypeScope.pop_foldl_behind, Scope.pop_push]
    rfl
  | _ => rfl

theorem checkChildren_run {scope : TypeScope} {reports : List Diagnostic}
    (h : scope.isEmpty = false) (index : Nat) (children : List Node) :
    checkChildren index children ⟨scope, reports⟩ =
      .ok () ⟨children.foldl TypeScope.behind scope,
        reports ++ childrenReports scope index children⟩ := by
  induction children generalizing scope reports index with
  | nil => simp [checkChildren, childrenReports, pure, EStateM.pure]
  | cons child children ih =>
    rw [checkChildren, bind_of_ok (checkChild_run h _ child),
      ih (TypeScope.isEmpty_behind h child), childrenReports, List.append_assoc, List.foldl_cons]

theorem checkRoot_document (children : List Node) (span : Span) :
    checkRoot (.document children span) ⟨scope, reports⟩ =
      .ok () ⟨scope, reports ++ childrenReports scope.push 0 children⟩ := by
  have h : inFrame (checkChildren 0 children) ⟨scope, reports⟩ = .ok () _ :=
    inFrame_run (checkChildren_run rfl 0 children)
  rwa [TypeScope.pop_foldl_behind, Scope.pop_push] at h

end CheckM

theorem check_document (children : List Node) (span : Span) :
    check (.document children span) =
      .ok (Diagnostic.sort (childrenReports Scope.empty.push 0 children)) := by
  rw [check, CheckM.checkRoot_document, List.nil_append]

end Stylesheet
