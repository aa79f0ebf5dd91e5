import Stylesheet.Evaluation
import Stylesheet.Proofs.Environment

/-! # Folding in an environment

The value of an expression depends on the environment of a scope only. An
expression is stuck when an operation inside it meets two literals that it has
no result for: a color or a truth value, or numbers whose exact result does not
fit.
-/

namespace Stylesheet

/-- What the operations give. Sums take quantities of one dimension, and one factor
of a product is a scalar. A result is exact, so there is none out of range. -/
inductive Operator.Gives : Operator → Literal → Literal → Literal → Prop where

  | add {m n v : Number} (d : Dimension) : v.toInt = m.toInt + n.toInt →
      Gives .add (.quantity m d) (.quantity n d) (.quantity v d)

  | subtract {m n v : Number} (d : Dimension) : v.toInt = m.toInt - n.toInt →
      Gives .subtract (.quantity m d) (.quantity n d) (.quantity v d)

  | scale_left {m n v : Number} (d : Dimension) : v.toInt = m.toInt * n.toInt →
      Gives .multiply (.quantity m .scalar) (.quantity n d) (.quantity v d)

  | scale_right {m n v : Number} (d : Dimension) : v.toInt = m.toInt * n.toInt →
      Gives .multiply (.quantity m d) (.quantity n .scalar) (.quantity v d)

def Number.OutOfRange (n : Int) : Prop := n < least ∨ greatest < n

/-- Whether an operation has no result for well-typed operands: one of them is a
color or a truth value, or the exact result is out of range. -/
def Operator.Fails (operator : Operator) : Literal → Literal → Prop
  | .quantity m _, .quantity n _ =>
    match operator with
    | add => Number.OutOfRange (m.toInt + n.toInt)
    | subtract => Number.OutOfRange (m.toInt - n.toInt)
    | multiply => Number.OutOfRange (m.toInt * n.toInt)
  | _, _ => True

namespace Expr

/-- The value of an expression in an environment. Operations have the results that
they give by `Operator.Gives` (`Operator.fold?_eq_some_iff`). -/
def valueIn (env : Env Literal) : Expr → Option Literal
  | literal value _ => some value
  | reference name _ => env name
  | operation operator left right _ =>
    (left.valueIn env).bind fun l => (right.valueIn env).bind fun r => operator.fold? l r

theorem fold?_eq_valueIn (scope : Scope Literal) (e : Expr) :
    e.fold? scope = e.valueIn scope.find? := by
  induction e with
  | literal value span => rfl
  | reference name span => rfl
  | operation operator left right span ihl ihr => simp only [fold?, valueIn, ihl, ihr]

/-- An expression with its value in the place of its own text, or as it is where
it has none. -/
def foldedIn (env : Env Literal) (e : Expr) : Expr :=
  match e.valueIn env with
  | some value => .literal value e.span
  | none => e

def names : Expr → List String
  | literal _ _ => []
  | reference name _ => [name]
  | operation _ left right _ => left.names ++ right.names

/-- What an expression contains, itself included. -/
inductive PartOf (part : Expr) : Expr → Prop where
  | refl : PartOf part part
  | left {e : Expr} (operator : Operator) (right : Expr) (span : Span) :
      PartOf part e → PartOf part (operation operator e right span)
  | right {e : Expr} (operator : Operator) (left : Expr) (span : Span) :
      PartOf part e → PartOf part (operation operator left e span)

/-- An operation inside the expression meets two literals that it fails on. -/
def Stuck (env : Env Literal) (e : Expr) : Prop :=
  ∃ operator left right span l r, (operation operator left right span).PartOf e ∧
    left.valueIn env = some l ∧ right.valueIn env = some r ∧ Operator.Fails operator l r

theorem Stuck.left {env : Env Literal} {e : Expr} (h : e.Stuck env) (operator : Operator)
    (right : Expr) (span : Span) : (operation operator e right span).Stuck env := by
  obtain ⟨o, a, b, s, l, r, hp, hl, hr, hf⟩ := h
  exact ⟨o, a, b, s, l, r, .left operator right span hp, hl, hr, hf⟩

theorem Stuck.right {env : Env Literal} {e : Expr} (h : e.Stuck env) (operator : Operator)
    (left : Expr) (span : Span) : (operation operator left e span).Stuck env := by
  obtain ⟨o, a, b, s, l, r, hp, hl, hr, hf⟩ := h
  exact ⟨o, a, b, s, l, r, .right operator left span hp, hl, hr, hf⟩

end Expr

namespace Operator

variable {operator : Operator} {l r value : Literal}

theorem gives_iff : operator.Gives l r value ↔ ∃ m d n d' v f, l = .quantity m d ∧
    r = .quantity n d' ∧ operator.dimension? d d' = some f ∧
    v.toInt = operator.exact m.toInt n.toInt ∧ value = .quantity v f := by
  constructor
  · intro h
    cases h with
    | @add m n v d hv => exact ⟨m, d, n, d, v, d, rfl, rfl, if_pos rfl, hv, rfl⟩
    | @subtract m n v d hv => exact ⟨m, d, n, d, v, d, rfl, rfl, if_pos rfl, hv, rfl⟩
    | @scale_left m n v d hv =>
      exact ⟨m, .scalar, n, d, v, d, rfl, rfl, by cases d <;> rfl, hv, rfl⟩
    | @scale_right m n v d hv =>
      exact ⟨m, d, n, .scalar, v, d, rfl, rfl, by cases d <;> rfl, hv, rfl⟩
  · rintro ⟨m, d, n, d', v, f, rfl, rfl, hf, hv, rfl⟩
    cases operator with
    | add =>
      obtain ⟨rfl, rfl⟩ : d = d' ∧ d = f := by simpa [dimension?] using hf
      exact .add d hv
    | subtract =>
      obtain ⟨rfl, rfl⟩ : d = d' ∧ d = f := by simpa [dimension?] using hf
      exact .subtract d hv
    | multiply =>
      cases d' with
      | scalar =>
        obtain rfl : d = f := by simpa [dimension?] using hf
        exact .scale_right d hv
      | pixel | percentage =>
        cases d with
        | scalar =>
          cases hf
          exact .scale_left _ hv
        | pixel | percentage => cases hf

theorem fold?_eq_some_iff : operator.fold? l r = some value ↔ operator.Gives l r value := by
  rw [gives_iff]
  constructor
  · intro h
    cases l with
    | color text => cases h
    | boolean b => cases h
    | quantity m d =>
      cases r with
      | color text => cases h
      | boolean b => cases h
      | quantity n d' =>
        obtain ⟨f, hf, h⟩ := Option.bind_eq_some_iff.mp h
        obtain ⟨v, hv, rfl⟩ := Option.map_eq_some_iff.mp h
        exact ⟨m, d, n, d', v, f, rfl, rfl, hf, Number.ofInt?_eq_some_iff.mp hv, rfl⟩
  · rintro ⟨m, d, n, d', v, f, rfl, rfl, hf, hv, rfl⟩
    simp [fold?, hf, Number.ofInt?_eq_some_iff.mpr hv]

theorem fails_quantity_iff {m n : Number} {d d' : Dimension} :
    operator.Fails (.quantity m d) (.quantity n d') ↔
      Number.OutOfRange (operator.exact m.toInt n.toInt) := by
  cases operator <;> rfl

theorem fold?_eq_none_of_fails (h : operator.Fails l r) : operator.fold? l r = none := by
  cases l with
  | color text => rfl
  | boolean value => rfl
  | quantity m d =>
    cases r with
    | color text => rfl
    | boolean value => rfl
    | quantity n e =>
      have hn := Number.ofInt?_eq_none_iff.mpr (fails_quantity_iff.mp h)
      cases hd : operator.dimension? d e <;> simp [fold?, hd, hn]

end Operator

theorem Expr.valueIn_operation_eq_some_iff {env : Env Literal} {operator : Operator}
    {left right : Expr} {span : Span} {value : Literal} :
    (operation operator left right span).valueIn env = some value ↔
      ∃ l r, left.valueIn env = some l ∧ right.valueIn env = some r ∧
        operator.Gives l r value := by
  simp only [valueIn, Option.bind_eq_some_iff, Operator.fold?_eq_some_iff]
  constructor
  · rintro ⟨l, hl, r, hr, h⟩
    exact ⟨l, r, hl, hr, h⟩
  · rintro ⟨l, r, hl, hr, h⟩
    exact ⟨l, hl, r, hr, h⟩

theorem Expr.PartOf.valueIn_eq_none {env : Env Literal} {part e : Expr} (h : part.PartOf e)
    (hn : part.valueIn env = none) : e.valueIn env = none := by
  induction h with
  | refl => exact hn
  | left operator right span _ ih => simp [valueIn, ih]
  | right operator left span _ ih => cases hl : left.valueIn env <;> simp [valueIn, hl, ih]

theorem Expr.Stuck.valueIn_eq_none {env : Env Literal} {e : Expr} (h : e.Stuck env) :
    e.valueIn env = none := by
  obtain ⟨operator, left, right, span, l, r, hp, hl, hr, hf⟩ := h
  apply hp.valueIn_eq_none
  simp only [valueIn, hl, hr, Option.bind_some]
  exact Operator.fold?_eq_none_of_fails hf

end Stylesheet
