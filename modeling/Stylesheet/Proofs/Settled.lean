import Stylesheet.Proofs.Lexical

/-! # Settled documents

A document is settled when it holds rules only, these hold declarations only, and
each value is a literal or has no value without variables. Evaluation leaves a
settled document, and the settled documents are those that it leaves as they are.
-/

namespace Stylesheet

namespace Node

/-- Declarations that have been folded, or that nothing can be done about. -/
inductive SettledItem : Node → Prop where

  | folded {property : String} {value : Literal} {valueSpan span : Span} :
      SettledItem (.declaration property (.literal value valueSpan) span)

  | unfolded {property : String} {value : Expr} {span : Span} :
      value.valueIn Env.empty = none → SettledItem (.declaration property value span)

inductive SettledRule : Node → Prop where

  | rule {selectors : List Selector} {body : List Node} {span : Span} :
      (∀ item ∈ body, SettledItem item) → SettledRule (.rule selectors body span)

inductive Settled : Node → Prop where

  | document {children : List Node} {span : Span} :
      (∀ child ∈ children, SettledRule child) → Settled (.document children span)

end Node

theorem Expr.valueIn_mono {env env' : Env Literal}
    (henv : ∀ name value, env name = some value → env' name = some value) {e : Expr}
    {value : Literal} (h : e.valueIn env = some value) : e.valueIn env' = some value := by
  induction e generalizing value with
  | literal v span => exact h
  | reference name span => exact henv name value h
  | operation operator left right span ihl ihr =>
    obtain ⟨l, hl, h⟩ := Option.bind_eq_some_iff.mp h
    obtain ⟨r, hr, h⟩ := Option.bind_eq_some_iff.mp h
    rw [valueIn, ihl hl, ihr hr]
    exact h

theorem Expr.valueIn_empty_eq_none {env : Env Literal} {e : Expr} (h : e.valueIn env = none) :
    e.valueIn Env.empty = none := by
  rw [Option.eq_none_iff_forall_ne_some]
  intro value hv
  have henv : ∀ name value, Env.empty name = some value → env name = some value := by
    rintro name value ⟨⟩
  rw [valueIn_mono henv hv] at h
  cases h

theorem Visit.settledItem {visit : Visit} {node : Node} (h : visit.node? = some node) :
    node.SettledItem := by
  cases visit with
  | declares context property value span =>
    obtain rfl := Option.some.inj h
    rw [Expr.foldedIn]
    cases hv : value.valueIn context.values with
    | some literal => exact .folded
    | none => exact .unfolded (Expr.valueIn_empty_eq_none hv)
  | binds context name value => cases h
  | decides context condition => cases h
  | drops noun => cases h

namespace Lexical

theorem settledItem_of_mem_body {env : Env Literal} {items : List Node} {item : Node}
    (h : item ∈ body env items) : item.SettledItem := by
  rw [body_eq_course ⟨env, fun _ => false⟩ items] at h
  obtain ⟨visit, -, hv⟩ := List.mem_filterMap.mp h
  exact Visit.settledItem hv

theorem settledRule_of_mem_children {env : Env Literal} {nodes : List Node} {child : Node}
    (h : child ∈ children env nodes) : child.SettledRule := by
  induction nodes generalizing env with
  | nil => cases h
  | cons node nodes ih =>
    cases node with
    | rule selectors items span =>
      rcases List.mem_cons.mp h with rfl | h
      · exact .rule fun item hm => settledItem_of_mem_body hm
      · exact ih h
    | _ => exact ih h

theorem item_of_settled {node : Node} (h : node.SettledItem) : item Env.empty node = [node] := by
  cases h with
  | folded => rfl
  | unfolded hv => simp only [item, Expr.foldedIn, hv]

theorem body_of_settled {items : List Node} (h : ∀ item ∈ items, item.SettledItem) :
    body Env.empty items = items := by
  induction items with
  | nil => rfl
  | cons first later ih =>
    obtain ⟨hf, hl⟩ := List.forall_mem_cons.mp h
    -- A declaration leaves the environment empty for what comes behind it.
    have hb : Env.behind Env.empty first = Env.empty := by cases hf <;> rfl
    rw [body, item_of_settled hf, hb, ih hl, List.singleton_append]

theorem children_of_settled {nodes : List Node} (h : ∀ node ∈ nodes, node.SettledRule) :
    children Env.empty nodes = nodes := by
  induction nodes with
  | nil => rfl
  | cons node nodes ih =>
    obtain ⟨⟨hb⟩, hn⟩ := List.forall_mem_cons.mp h
    rw [children, body_of_settled hb, ih hn]

end Lexical

/-- The settled documents are the fixed points of evaluation. -/
theorem evaluate_eq_self_iff {root : Node} : (evaluate root).1 = .ok root ↔ root.Settled := by
  constructor
  · intro h
    cases root with
    | document children span =>
      rw [evaluate_document] at h
      obtain ⟨hc, -⟩ := Node.document.inj (Except.ok.inj h)
      refine .document fun child hm => ?_
      rw [← hc] at hm
      exact Lexical.settledRule_of_mem_children hm
    | _ => cases h
  · rintro ⟨h⟩
    rw [evaluate_document, Lexical.children_of_settled h]

/-- Evaluation is idempotent: the evaluation of a document succeeds, leaves rules that
hold settled declarations only, and a second evaluation leaves these as they are. -/
theorem evaluate_idempotent (children : List Node) (span : Span) :
    ∃ evaluated, (evaluate (.document children span)).1 = .ok evaluated ∧ evaluated.Settled ∧
      (evaluate evaluated).1 = .ok evaluated := by
  have hs : (Node.document (Lexical.children Env.empty children) span).Settled :=
    .document fun child hm => Lexical.settledRule_of_mem_children hm
  refine ⟨_, ?_, hs, evaluate_eq_self_iff.mpr hs⟩
  rw [evaluate_document]

end Stylesheet
