import Stylesheet.Proofs.Folding

/-! # Exact values

The exact value of an expression is computed over the unbounded integers, and its
dimension from the table of dimensions alone. Folding gives this value in this
dimension or none at all, and it gives one unless a name has no value, the table
has no entry for two operands, or an exact result is out of range.
-/

namespace Stylesheet

namespace Literal

def number? : Literal → Option Int
  | quantity value _ => some value.toInt
  | _ => none

def dimension? : Literal → Option Dimension
  | quantity _ dimension => some dimension
  | _ => none

theorem exists_quantity {value : Literal} {dimension : Dimension}
    (h : value.dimension? = some dimension) : ∃ n, value = quantity n dimension := by
  cases value with
  | quantity n d =>
    obtain rfl := Option.some.inj h
    exact ⟨n, rfl⟩
  | color text => cases h
  | boolean b => cases h

end Literal

namespace Expr

/-- The value of an expression over the unbounded integers. Variables stand for
their numbers. -/
def exactIn (env : Env Literal) : Expr → Option Int
  | literal value _ => value.number?
  | reference name _ => (env name).bind Literal.number?
  | operation .add left right _ =>
    (left.exactIn env).bind fun m => (right.exactIn env).map fun n => m + n
  | operation .subtract left right _ =>
    (left.exactIn env).bind fun m => (right.exactIn env).map fun n => m - n
  | operation .multiply left right _ =>
    (left.exactIn env).bind fun m => (right.exactIn env).map fun n => m * n

theorem exactIn_operation (env : Env Literal) (operator : Operator) (left right : Expr)
    (span : Span) : (operation operator left right span).exactIn env =
      (left.exactIn env).bind fun m => (right.exactIn env).map fun n => operator.exact m n := by
  cases operator <;> rfl

/-- The dimension of an expression, whatever its numbers are. -/
def dimensionIn (env : Env Literal) : Expr → Option Dimension
  | literal value _ => value.dimension?
  | reference name _ => (env name).bind Literal.dimension?
  | operation operator left right _ =>
    (left.dimensionIn env).bind fun d => (right.dimensionIn env).bind fun d' =>
      operator.dimension? d d'

def AllOperations (P : Expr → Prop) (e : Expr) : Prop :=
  ∀ operator left right span, (operation operator left right span).PartOf e →
    P (operation operator left right span)

section AllOperations

variable {P : Expr → Prop}

@[simp] theorem allOperations_literal (value : Literal) (span : Span) :
    (literal value span).AllOperations P := by
  rintro operator left right span' ⟨⟩

@[simp] theorem allOperations_reference (name : String) (span : Span) :
    (reference name span).AllOperations P := by
  rintro operator left right span' ⟨⟩

@[simp] theorem allOperations_operation {operator : Operator} {left right : Expr} {span : Span} :
    (operation operator left right span).AllOperations P ↔
      P (operation operator left right span) ∧ left.AllOperations P ∧ right.AllOperations P := by
  constructor
  · intro h
    refine ⟨h operator left right span .refl, fun o a b s hp => ?_, fun o a b s hp => ?_⟩
    · exact h o a b s (.left operator right span hp)
    · exact h o a b s (.right operator left span hp)
  · rintro ⟨h, hl, hr⟩ o a b s hp
    cases hp with
    | refl => exact h
    | left _ _ _ hp => exact hl o a b s hp
    | right _ _ _ hp => exact hr o a b s hp

end AllOperations

/-- The exact result of every operation inside an expression is in range. -/
def Fits (env : Env Literal) : Expr → Prop :=
  AllOperations fun part => ∃ n, part.exactIn env = some n ∧ Number.least ≤ n ∧
    n ≤ Number.greatest

/-- The table has a dimension for the operands of every operation inside an
expression. -/
def Accepted (env : Env Literal) : Expr → Prop :=
  AllOperations fun part => ∃ d, part.dimensionIn env = some d

variable {env : Env Literal}

theorem exactIn_of_valueIn {e : Expr} {value : Literal} (h : e.valueIn env = some value) :
    e.exactIn env = value.number? ∧ e.dimensionIn env = value.dimension? := by
  induction e generalizing value with
  | literal v span =>
    obtain rfl := Option.some.inj h
    exact ⟨rfl, rfl⟩
  | reference name span =>
    have hn : env name = some value := h
    simp [exactIn, dimensionIn, hn]
  | operation operator left right span ihl ihr =>
    obtain ⟨l, r, hl, hr, h⟩ := valueIn_operation_eq_some_iff.mp h
    obtain ⟨m, d, n, d', v, f, rfl, rfl, hf, hv, rfl⟩ := Operator.gives_iff.mp h
    simp [exactIn_operation, dimensionIn, ihl hl, ihr hr, Literal.number?, Literal.dimension?, hf,
      hv]

theorem fits_of_valueIn {e : Expr} {value : Literal} (h : e.valueIn env = some value) :
    e.Fits env := by
  induction e generalizing value with
  | literal v span => exact allOperations_literal v span
  | reference name span => exact allOperations_reference name span
  | operation operator left right span ihl ihr =>
    obtain ⟨l, r, hl, hr, hg⟩ := valueIn_operation_eq_some_iff.mp h
    refine allOperations_operation.mpr ⟨?_, ihl hl, ihr hr⟩
    obtain ⟨m, d, n, d', v, f, -, -, -, -, rfl⟩ := Operator.gives_iff.mp hg
    exact ⟨v.toInt, (exactIn_of_valueIn h).1, Number.least_le_toInt v, Number.toInt_le_greatest v⟩

/-- Names with values, operands that the table takes and results in range are all
that a value needs. -/
theorem exists_valueIn {e : Expr} (hn : ∀ name ∈ e.names, ∃ value, env name = some value)
    (ha : e.Accepted env) (hf : e.Fits env) : ∃ value, e.valueIn env = some value := by
  induction e with
  | literal value span => exact ⟨value, rfl⟩
  | reference name span => exact hn name (by simp [names])
  | operation operator left right span ihl ihr =>
    obtain ⟨⟨f, hdim⟩, hal, har⟩ := allOperations_operation.mp ha
    obtain ⟨⟨n, hexact, hrange⟩, hfl, hfr⟩ := allOperations_operation.mp hf
    obtain ⟨l, hl⟩ := ihl (fun name h => hn name (List.mem_append_left _ h)) hal hfl
    obtain ⟨r, hr⟩ := ihr (fun name h => hn name (List.mem_append_right _ h)) har hfr
    obtain ⟨hml, hdl⟩ := exactIn_of_valueIn hl
    obtain ⟨hnr, hdr⟩ := exactIn_of_valueIn hr
    -- The operands are quantities, since they have dimensions.
    obtain ⟨d, hd, htable⟩ := Option.bind_eq_some_iff.mp hdim
    obtain ⟨d', hd', htable⟩ := Option.bind_eq_some_iff.mp htable
    obtain ⟨a, rfl⟩ := Literal.exists_quantity (hdl.symm.trans hd)
    obtain ⟨b, rfl⟩ := Literal.exists_quantity (hdr.symm.trans hd')
    obtain rfl : operator.exact a.toInt b.toInt = n := by
      simpa [exactIn_operation, hml, hnr, Literal.number?] using hexact
    obtain ⟨v, hv⟩ : ∃ v, Number.ofInt? (operator.exact a.toInt b.toInt) = some v :=
      ⟨_, if_pos hrange⟩
    refine ⟨.quantity v f, valueIn_operation_eq_some_iff.mpr ⟨_, _, hl, hr, ?_⟩⟩
    exact Operator.gives_iff.mpr
      ⟨a, d, b, d', v, f, rfl, rfl, htable, Number.ofInt?_eq_some_iff.mp hv, rfl⟩

end Expr

/-- Folding never wraps. A quantity that an expression folds to is its exact value,
and every operation inside had an exact result in range. Conversely an expression
folds to its exact value where all its names have values, the table takes the
dimensions of all operands, and all exact results are in range. -/
theorem fold?_exact (scope : Scope Literal) (e : Expr) :
    (∀ n d, e.fold? scope = some (.quantity n d) →
      e.exactIn scope.find? = some n.toInt ∧ e.dimensionIn scope.find? = some d ∧
        e.Fits scope.find?) ∧
    ((∀ name ∈ e.names, ∃ value, scope.find? name = some value) → e.Accepted scope.find? →
      e.Fits scope.find? → ∃ value, e.fold? scope = some value ∧
        value.number? = e.exactIn scope.find? ∧ value.dimension? = e.dimensionIn scope.find?) := by
  rw [Expr.fold?_eq_valueIn]
  constructor
  · intro n d h
    obtain ⟨hn, hd⟩ := Expr.exactIn_of_valueIn h
    exact ⟨hn, hd, Expr.fits_of_valueIn h⟩
  · intro hn ha hf
    obtain ⟨value, hv⟩ := Expr.exists_valueIn hn ha hf
    obtain ⟨hnumber, hdimension⟩ := Expr.exactIn_of_valueIn hv
    exact ⟨value, hv, hnumber.symm, hdimension.symm⟩

theorem fold?_exact_least :
    let scope : Scope Literal := ⟨[[("W", .quantity 4611686018427387904 .pixel)]]⟩
    let width : Expr := .reference "W" .unknown
    let e : Expr := .operation .subtract
      (.operation .subtract (.literal (.quantity 0 .pixel) .unknown) width .unknown) width .unknown
    (∀ name ∈ e.names, ∃ value, scope.find? name = some value) ∧ e.Accepted scope.find? ∧
      e.Fits scope.find? ∧ ∃ n, e.fold? scope = some (.quantity n .pixel) ∧
        n.toInt = Number.least := by
  intro scope width e
  have hw : scope.find? "W" = some (.quantity 4611686018427387904 .pixel) := rfl
  have hn : ∀ name ∈ e.names, ∃ value, scope.find? name = some value := by
    simp [e, width, Expr.names, hw]
  have ha : e.Accepted scope.find? := by
    simp [e, width, Expr.Accepted, Expr.dimensionIn, hw, Literal.dimension?, Operator.dimension?]
  have hf : e.Fits scope.find? := by
    simp only [e, width, Expr.Fits, Expr.allOperations_operation, Expr.allOperations_literal,
      Expr.allOperations_reference, and_true]
    exact ⟨⟨_, rfl, by decide, by decide⟩, ⟨_, rfl, by decide, by decide⟩⟩
  obtain ⟨value, hv, -, hd⟩ := (fold?_exact scope e).2 hn ha hf
  have hp : e.dimensionIn scope.find? = some .pixel := by decide
  have hl : e.exactIn scope.find? = some Number.least := by decide
  obtain ⟨n, rfl⟩ := Literal.exists_quantity (hd.trans hp)
  obtain ⟨hexact, -⟩ := (fold?_exact scope e).1 n .pixel hv
  exact ⟨hn, ha, hf, n, hv, Option.some.inj (hexact.symm.trans hl)⟩

/-- A result out of range inside an expression is not made up for later. -/
example :
    let scope : Scope Literal := ⟨[[("W", .quantity 9223372036854775807 .pixel)]]⟩
    let one : Expr := .literal (.quantity 1 .pixel) .unknown
    let e : Expr := .operation .subtract
      (.operation .add (.reference "W" .unknown) one .unknown) one .unknown
    e.exactIn scope.find? = some Number.greatest ∧ e.fold? scope = none := by
  decide

end Stylesheet
