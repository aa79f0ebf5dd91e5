import Stylesheet.Proofs.Folding

/-! # The course of an evaluation

The course of an evaluation is the list of what it meets: declarations, bindings
and conditions, each with what is known where it stands, and nodes that it
drops. It is found without a stack of frames, and both the result and the log of
an evaluation are read off it.
-/

namespace Stylesheet

/-- The environment behind an item: a binding extends it if it has a value. -/
def Env.behind (env : Env Literal) : Node → Env Literal
  | .binding name value _ =>
    match value.valueIn env with
    | some literal => Function.update env name (some literal)
    | none => env
  | _ => env

/-- What is known at a point of an evaluation: the values of names, and which
names are stale. The latest binding of a stale name has no value, or refers to a
stale name itself. -/
structure Context where
  values : Env Literal
  stale : String → Bool

inductive Visit where
  | declares (context : Context) (property : String) (value : Expr) (span : Span)
  | binds (context : Context) (name : String) (value : Expr)
  | decides (context : Context) (condition : Expr)
  | drops (noun : String)

namespace Context

def start : Context := ⟨Env.empty, fun _ => false⟩

def taints (context : Context) (e : Expr) : Bool := e.names.any context.stale

def behind (context : Context) : Node → Context
  | .binding name value span =>
    ⟨context.values.behind (.binding name value span),
      Function.update context.stale name
        ((value.valueIn context.values).isNone || context.taints value)⟩
  | _ => context

mutual

/-- What an evaluation meets in an item of a block. -/
def visitItem (context : Context) : Node → List Visit
  | .declaration property value span => [.declares context property value span]
  | .binding name value _ => [.binds context name value]
  | .conditional condition body otherwise _ =>
    .decides context condition ::
      match condition.valueIn context.values with
      | some (.boolean true) => visitBody context body
      | some (.boolean false) =>
        match otherwise with
        | none => []
        | some ⟨items, _⟩ => visitBody context items
      | _ => []
  | other => [.drops other.noun]

def visitBody (context : Context) : List Node → List Visit
  | [] => []
  | item :: items => visitItem context item ++ visitBody (context.behind item) items

end

def visitChildren (context : Context) : List Node → List Visit
  | [] => []
  | .binding name value span :: children =>
    .binds context name value ::
      visitChildren (context.behind (.binding name value span)) children
  | .rule _ body _ :: children => visitBody context body ++ visitChildren context children
  | other :: children => .drops other.noun :: visitChildren context children

end Context

theorem Context.visitItem_conditional (context : Context) (condition : Expr) (body : List Node)
    (otherwise : Option (Block Node)) (span : Span) :
    ∃ later, context.visitItem (.conditional condition body otherwise span) =
        .decides context condition :: later ∧
      (later = [] ∨ later = context.visitBody body ∨
        ∃ branch, otherwise = some branch ∧ later = context.visitBody branch.items) := by
  unfold visitItem
  refine ⟨_, rfl, ?_⟩
  split
  · exact Or.inr (Or.inl rfl)
  · cases otherwise with
    | none => exact Or.inl rfl
    | some branch => exact Or.inr (Or.inr ⟨branch, rfl, rfl⟩)
  · exact Or.inl rfl

namespace Visit

def node? : Visit → Option Node
  | declares context property value span =>
    some (.declaration property (value.foldedIn context.values) span)
  | _ => none

@[simp] theorem node?_decides (context : Context) (condition : Expr) :
    (decides context condition).node? = none := rfl

def event? : Visit → Option Event
  | declares context property value _ =>
    if value.valueIn context.values = none then some (.unfoldedDeclaration property) else none
  | binds context name value =>
    if value.valueIn context.values = none then some (.unfoldedBinding name) else none
  | decides context condition =>
    match condition.valueIn context.values with
    | some (.boolean _) => none
    | other => some (.undecidedCondition other)
  | drops noun => some (.droppedNode noun)

end Visit

def Node.course : Node → List Visit
  | .document children _ => Context.start.visitChildren children
  | _ => []

def Scope.behind (scope : Scope Literal) : Node → Scope Literal
  | .binding name value _ =>
    match value.fold? scope with
    | some literal => scope.insert name literal
    | none => scope
  | _ => scope

namespace Scope

theorem isEmpty_behind {scope : Scope Literal} (h : scope.isEmpty = false) (item : Node) :
    (scope.behind item).isEmpty = false := by
  cases item with
  | binding name value span =>
    rw [behind]
    split
    · rfl
    · exact h
  | _ => exact h

theorem pop_behind (scope : Scope Literal) (item : Node) : (scope.behind item).pop = scope.pop := by
  cases item with
  | binding name value span =>
    rw [behind]
    split
    · exact pop_insert scope name _
    · rfl
  | _ => rfl

theorem env_behind (scope : Scope Literal) (item : Node) :
    (scope.behind item).find? = Env.behind scope.find? item := by
  cases item with
  | binding name value span =>
    rw [behind, Env.behind, ← Expr.fold?_eq_valueIn]
    split
    · exact env_insert scope name _
    · rfl
  | _ => rfl

theorem pop_foldl_behind (scope : Scope Literal) (items : List Node) :
    (items.foldl behind scope).pop = scope.pop :=
  pop_foldl pop_behind scope items

end Scope

theorem Context.values_behind (context : Context) (item : Node) :
    (context.behind item).values = context.values.behind item := by
  cases item <;> rfl

/-- An open scope that gives names the values of a context. -/
structure Scope.Reads (scope : Scope Literal) (context : Context) : Prop where
  isOpen : scope.isEmpty = false
  env : scope.find? = context.values

namespace Scope.Reads

variable {scope : Scope Literal} {context : Context}

theorem start : Scope.empty.push.Reads Context.start := ⟨rfl, rfl⟩

theorem push (h : scope.Reads context) : scope.push.Reads context :=
  ⟨rfl, (env_push scope).trans h.env⟩

theorem behind (h : scope.Reads context) (item : Node) :
    (scope.behind item).Reads (context.behind item) := by
  refine ⟨isEmpty_behind h.isOpen item, ?_⟩
  rw [env_behind, h.env, Context.values_behind]

theorem fold? (h : scope.Reads context) (e : Expr) : e.fold? scope = e.valueIn context.values := by
  rw [Expr.fold?_eq_valueIn, h.env]

end Scope.Reads

namespace EvalM

variable {scope : Scope Literal} {context : Context} {log : List Event}

theorem inFrame_run {α : Type} {evaluate : EvalM α} {result : α} {inner : Scope Literal}
    {log' : List Event} (h : evaluate ⟨scope.push, log⟩ = .ok result ⟨inner, log'⟩) :
    inFrame evaluate ⟨scope, log⟩ = .ok result ⟨inner.pop, log'⟩ := by
  change (evaluate >>= fun result => do
    modify fun state => { state with scope := state.scope.pop }
    return result) ⟨scope.push, log⟩ = _
  rw [bind_of_ok h]
  rfl

theorem valueOf_run (h : scope.Reads context) (e : Expr) :
    valueOf e ⟨scope, log⟩ = .ok (e.valueIn context.values) ⟨scope, log⟩ := by
  rw [← h.fold? e]
  rfl

theorem bind_run (h : scope.isEmpty = false) (name : String) (value : Literal)
    (position : Position) :
    bind name value position ⟨scope, log⟩ = .ok () ⟨scope.insert name value, log⟩ := by
  have hg : (get : EvalM Evaluation) ⟨scope, log⟩ = .ok ⟨scope, log⟩ ⟨scope, log⟩ := rfl
  rw [bind, bind_of_ok hg, Scope.bind_of_open h]
  rfl

theorem evaluateBinding_run (h : scope.Reads context) (name : String) (value : Expr) (span : Span) :
    evaluateBinding name value span ⟨scope, log⟩ =
      .ok () ⟨scope.behind (.binding name value span),
        log ++ (Visit.binds context name value).event?.toList⟩ := by
  rw [evaluateBinding, bind_of_ok (valueOf_run h value), Scope.behind, Visit.event?, h.fold? value]
  cases value.valueIn context.values with
  | none => rfl
  | some literal => simp [bind_run h.isOpen]

theorem evaluateDeclaration_run (h : scope.Reads context) (property : String) (value : Expr)
    (span : Span) :
    evaluateDeclaration property value span ⟨scope, log⟩ =
      .ok (.declaration property (value.foldedIn context.values) span)
        ⟨scope, log ++ (Visit.declares context property value span).event?.toList⟩ := by
  rw [evaluateDeclaration, bind_of_ok (valueOf_run h value), Expr.foldedIn, Visit.event?]
  cases value.valueIn context.values with
  | none => rfl
  | some literal => simp [pure, EStateM.pure]

mutual

/-- An item leaves the declarations of its course and logs the events of its
course. The scope is as it was but for a binding, since a branch closes the frame
it opens. -/
theorem evaluateItem_run {scope : Scope Literal} {context : Context} {log : List Event}
    (h : scope.Reads context) (item : Node) :
    evaluateItem item ⟨scope, log⟩ =
      .ok ((context.visitItem item).filterMap Visit.node?)
        ⟨scope.behind item, log ++ (context.visitItem item).filterMap Visit.event?⟩ := by
  match item with
  | .declaration property value span =>
    unfold evaluateItem
    rw [bind_of_ok (evaluateDeclaration_run h property value span)]
    rfl
  | .binding name value span =>
    unfold evaluateItem
    rw [bind_of_ok (evaluateBinding_run h name value span)]
    rfl
  | .conditional condition body otherwise span =>
    unfold evaluateItem Context.visitItem
    rw [bind_of_ok (valueOf_run h condition)]
    match hv : condition.valueIn context.values with
    | some (.boolean true) =>
      simp only [inFrame_run (evaluateBody_run h.push body)]
      simp [List.filterMap_cons, Visit.event?, hv, Scope.pop_foldl_behind, Scope.behind]
    | some (.boolean false) =>
      match otherwise with
      | none => simp [List.filterMap_cons, Visit.event?, hv, Scope.behind, pure, EStateM.pure]
      | some ⟨items, _⟩ =>
        simp only [inFrame_run (evaluateBody_run h.push items)]
        simp [List.filterMap_cons, Visit.event?, hv, Scope.pop_foldl_behind, Scope.behind]
    | none => simp [Visit.event?, hv]; rfl
    | some (.color text) => simp [Visit.event?, hv]; rfl
    | some (.quantity number dimension) => simp [Visit.event?, hv]; rfl
  | .document children span => rfl
  | .rule selectors body span => rfl
  | .alternative branch => rfl

theorem evaluateBody_run {scope : Scope Literal} {context : Context} {log : List Event}
    (h : scope.Reads context) (items : List Node) :
    evaluateBody items ⟨scope, log⟩ =
      .ok ((context.visitBody items).filterMap Visit.node?)
        ⟨items.foldl Scope.behind scope,
          log ++ (context.visitBody items).filterMap Visit.event?⟩ := by
  match items with
  | [] => simp [evaluateBody, Context.visitBody, pure, EStateM.pure]
  | item :: items =>
    rw [evaluateBody, bind_of_ok (evaluateItem_run h item),
      bind_of_ok (evaluateBody_run (h.behind item) items)]
    simp [Context.visitBody, pure, EStateM.pure]

end

end EvalM

end Stylesheet
