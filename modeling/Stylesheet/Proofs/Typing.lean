import Mathlib.Tactic.SplitIfs
import Stylesheet.Checking
import Stylesheet.Proofs.Folding

/-! # Types of expressions

The typing rules are stated as a relation, and inference without diagnostics is
derivability in it. A well-typed expression that has a value has one of its
type, and it fails to have a value exactly when it is stuck.
-/

namespace Stylesheet

namespace Expr

/-- What an operation takes: all expressions but the colors and truth values that are
written out. -/
inductive IsOperand : Expr → Prop where
  | quantity (value : Number) (dimension : Dimension) (span : Span) :
      IsOperand (literal (.quantity value dimension) span)
  | reference (name : String) (span : Span) : IsOperand (reference name span)
  | operation (operator : Operator) (left right : Expr) (span : Span) :
      IsOperand (operation operator left right span)

theorem isOperand_iff {e : Expr} : e.IsOperand ↔ e.isPlainLiteral = false := by
  constructor
  · rintro ⟨⟩ <;> rfl
  · intro h
    cases e with
    | literal value span =>
      cases value with
      | quantity value dimension => exact .quantity value dimension span
      | color text => cases h
      | boolean value => cases h
    | reference name span => exact .reference name span
    | operation operator left right span => exact .operation operator left right span

/-- The typing rules, over the types of the variables in scope. -/
inductive HasType (types : Env ValueType) : Expr → ValueType → Prop where

  | literal (value : Literal) (span : Span) : HasType types (literal value span) value.type

  | reference {name : String} {type : ValueType} (span : Span) : types name = some type →
      HasType types (reference name span) type

  | sum {operator : Operator} {left right : Expr} {type : ValueType} (span : Span) :
      operator ≠ .multiply → left.IsOperand → right.IsOperand →
      HasType types left type → HasType types right type →
      HasType types (operation operator left right span) type

  | scale_left {left right : Expr} {type : ValueType} (span : Span) :
      left.IsOperand → right.IsOperand → HasType types left (.quantity .scalar) →
      HasType types right type →
      HasType types (operation .multiply left right span) type

  | scale_right {left right : Expr} {type : ValueType} (span : Span) :
      left.IsOperand → right.IsOperand → HasType types left type →
      HasType types right (.quantity .scalar) →
      HasType types (operation .multiply left right span) type

end Expr

/-- All types in scope are determined, and are those of an environment. -/
def TypeScope.Shows (scope : TypeScope) (types : Env ValueType) : Prop :=
  ∀ name, scope.find? name = (types name).map some

namespace Expr

variable {scope : TypeScope} {types : Env ValueType}

theorem operationType_sum {operator : Operator} (h : operator ≠ .multiply)
    (left right : Option ValueType) :
    operationType operator left right = if left = right then .ok left else
      .error "operation can only be used with expressions of the same type" := by
  cases operator with
  | add => rfl
  | subtract => rfl
  | multiply => exact absurd rfl h

/-- A derivable type is inferred, without a diagnostic. -/
theorem HasType.infer {e : Expr} {type : ValueType} (h : HasType types e type)
    (hs : scope.Shows types) (path : TreePath) : e.infer scope path = (some type, []) := by
  induction h generalizing path with
  | literal value span => rfl
  | reference span ht => simp [Expr.infer, referenceType, hs _, ht]
  | sum span ho hl hr _ _ ihl ihr =>
    simp [Expr.infer, isOperand_iff.mp hl, isOperand_iff.mp hr, ihl, ihr, operationType_sum ho]
  | scale_left span hl hr _ _ ihl ihr =>
    simp [Expr.infer, isOperand_iff.mp hl, isOperand_iff.mp hr, ihl, ihr, operationType]
  | @scale_right left right type span hl hr _ _ ihl ihr =>
    by_cases ht : type = .quantity .scalar <;>
      simp [Expr.infer, isOperand_iff.mp hl, isOperand_iff.mp hr, ihl, ihr, operationType, ht]

theorem hasType_of_operationType {operator : Operator} {left right : Expr} {l r : ValueType}
    {type : Option ValueType} (span : Span) (hpl : left.IsOperand) (hpr : right.IsOperand)
    (hl : HasType types left l) (hr : HasType types right r)
    (h : operationType operator (some l) (some r) = .ok type) :
    ∃ t, type = some t ∧ HasType types (operation operator left right span) t := by
  by_cases ho : operator = .multiply
  · subst ho
    simp only [operationType] at h
    split_ifs at h with hsl hsr
    · obtain rfl := Except.ok.inj h
      obtain rfl := Option.some.inj hsl
      exact ⟨r, rfl, .scale_left span hpl hpr hl hr⟩
    · obtain rfl := Except.ok.inj h
      obtain rfl := Option.some.inj hsr
      exact ⟨l, rfl, .scale_right span hpl hpr hl hr⟩
  · rw [operationType_sum ho] at h
    split_ifs at h with he
    obtain rfl := Except.ok.inj h
    obtain rfl := Option.some.inj he
    exact ⟨l, rfl, .sum span ho hpl hpr hl hr⟩

/-- Inference without a diagnostic determines a type, and derives it. -/
theorem hasType_of_infer (hs : scope.Shows types) {e : Expr} {path : TreePath}
    {type : Option ValueType} (h : e.infer scope path = (type, [])) :
    ∃ t, type = some t ∧ HasType types e t := by
  induction e generalizing path type with
  | literal value span =>
    obtain ⟨rfl, -⟩ := Prod.mk.inj h
    exact ⟨_, rfl, .literal value span⟩
  | reference name span =>
    simp only [Expr.infer, referenceType, hs name] at h
    cases ht : types name with
    | none => simp [ht] at h
    | some t =>
      obtain rfl : some t = type := by simpa [ht] using h
      exact ⟨t, rfl, .reference span ht⟩
  | operation operator left right span ihl ihr =>
    rw [Expr.infer] at h
    split_ifs at h with hpl hpr
    · cases h
    · cases h
    · cases hl : left.infer scope (path.child 0) with | mk lt lrs =>
      cases hr : right.infer scope (path.child 1) with | mk rt rrs =>
      simp only [hl, hr] at h
      cases ho : operationType operator lt rt with
      | error message => simp [ho] at h
      | ok t =>
        simp only [ho, Prod.mk.injEq, List.append_eq_nil_iff] at h
        obtain ⟨rfl, rfl, rfl⟩ := h
        obtain ⟨l, rfl, htl⟩ := ihl hl
        obtain ⟨r, rfl, htr⟩ := ihr hr
        exact hasType_of_operationType span (isOperand_iff.mpr (by simpa using hpl))
          (isOperand_iff.mpr (by simpa using hpr)) htl htr ho

end Expr

/-- A result of an operation has this type, and only a failure leaves none. -/
def Operator.Sound (operator : Operator) (l r : Literal) (type : ValueType) : Prop :=
  (∀ v, operator.fold? l r = some v → v.type = type) ∧
    (operator.fold? l r = none → operator.Fails l r)

namespace Operator

theorem sound_of_dimension? {operator : Operator} {d e f : Dimension} (m n : Number)
    (h : operator.dimension? d e = some f) :
    operator.Sound (.quantity m d) (.quantity n e) (.quantity f) := by
  simp only [Sound, fold?, h, Option.bind_some, Option.map_eq_some_iff, Option.map_eq_none_iff]
  constructor
  · rintro v ⟨number, -, rfl⟩
    rfl
  · exact fun hn => fails_quantity_iff.mpr (Number.ofInt?_eq_none_iff.mp hn)

theorem sound_of_fails {operator : Operator} {l r : Literal} (h : operator.Fails l r)
    (type : ValueType) : operator.Sound l r type := by
  refine ⟨fun v hv => ?_, fun _ => h⟩
  rw [fold?_eq_none_of_fails h] at hv
  cases hv

theorem fails_or_quantities (operator : Operator) (l r : Literal) :
    operator.Fails l r ∨ ∃ m d n e, l = .quantity m d ∧ r = .quantity n e := by
  cases l with
  | color text => exact Or.inl trivial
  | boolean value => exact Or.inl trivial
  | quantity m d =>
    cases r with
    | color text => exact Or.inl trivial
    | boolean value => exact Or.inl trivial
    | quantity n e => exact Or.inr ⟨m, d, n, e, rfl, rfl⟩

theorem sound_sum {operator : Operator} (ho : operator ≠ .multiply) {l r : Literal}
    {type : ValueType} (hl : l.type = type) (hr : r.type = type) : operator.Sound l r type := by
  rcases operator.fails_or_quantities l r with hf | ⟨m, d, n, e, rfl, rfl⟩
  · exact sound_of_fails hf type
  · obtain rfl : e = d := ValueType.quantity.inj (hr.trans hl.symm)
    subst hl
    apply sound_of_dimension?
    cases operator with
    | add => simp [dimension?]
    | subtract => simp [dimension?]
    | multiply => exact absurd rfl ho

theorem sound_scale_left {l r : Literal} {type : ValueType} (hl : l.type = .quantity .scalar)
    (hr : r.type = type) : multiply.Sound l r type := by
  rcases multiply.fails_or_quantities l r with hf | ⟨m, d, n, e, rfl, rfl⟩
  · exact sound_of_fails hf type
  · obtain rfl : d = .scalar := ValueType.quantity.inj hl
    subst hr
    apply sound_of_dimension?
    cases e <;> rfl

theorem sound_scale_right {l r : Literal} {type : ValueType} (hl : l.type = type)
    (hr : r.type = .quantity .scalar) : multiply.Sound l r type := by
  rcases multiply.fails_or_quantities l r with hf | ⟨m, d, n, e, rfl, rfl⟩
  · exact sound_of_fails hf type
  · obtain rfl : e = .scalar := ValueType.quantity.inj hr
    subst hl
    apply sound_of_dimension?
    cases d <;> rfl

end Operator

/-- A value of an expression has this type, and only a stuck expression has none. -/
def Expr.Sound (env : Env Literal) (e : Expr) (type : ValueType) : Prop :=
  (∀ v, e.valueIn env = some v → v.type = type) ∧ (e.valueIn env = none → e.Stuck env)

namespace Expr

variable {env : Env Literal} {types : Env ValueType}

theorem sound_operation {operator : Operator} {left right : Expr} {tl tr type : ValueType}
    (span : Span) (hl : left.Sound env tl) (hr : right.Sound env tr)
    (ho : ∀ l r, l.type = tl → r.type = tr → operator.Sound l r type) :
    (operation operator left right span).Sound env type := by
  cases hvl : left.valueIn env with
  | none => exact ⟨by simp [valueIn, hvl], fun _ => (hl.2 hvl).left operator right span⟩
  | some l =>
    cases hvr : right.valueIn env with
    | none => exact ⟨by simp [valueIn, hvl, hvr], fun _ => (hr.2 hvr).right operator left span⟩
    | some r =>
      obtain ⟨ht, hf⟩ := ho l r (hl.1 l hvl) (hr.1 r hvr)
      have hv : (operation operator left right span).valueIn env = operator.fold? l r := by
        simp [valueIn, hvl, hvr]
      rw [Sound, hv]
      exact ⟨ht, fun hn => ⟨operator, left, right, span, l, r, .refl, hvl, hvr, hf hn⟩⟩

/-- Where the variables of a well-typed expression have values of their types, so
has the expression, unless it is stuck. -/
theorem HasType.sound {e : Expr} {type : ValueType} (h : HasType types e type)
    (ha : ∀ name ∈ e.names, (env name).map Literal.type = types name) : e.Sound env type := by
  induction h with
  | literal value span =>
    refine ⟨fun v hv => ?_, by simp [valueIn]⟩
    obtain rfl := Option.some.inj hv
    rfl
  | @reference name type span ht =>
    have hn : (env name).map Literal.type = some type := by
      rw [ha name (by simp [names]), ht]
    obtain ⟨v, hv, rfl⟩ := Option.map_eq_some_iff.mp hn
    refine ⟨fun w hw => ?_, by simp [valueIn, hv]⟩
    rw [Option.some.inj (hv.symm.trans hw)]
  | sum span ho _ _ _ _ ihl ihr =>
    refine sound_operation span (ihl fun n hn => ha n ?_) (ihr fun n hn => ha n ?_)
      fun l r hl hr => Operator.sound_sum ho hl hr
    · exact List.mem_append_left _ hn
    · exact List.mem_append_right _ hn
  | scale_left span _ _ _ _ ihl ihr =>
    refine sound_operation span (ihl fun n hn => ha n ?_) (ihr fun n hn => ha n ?_)
      fun l r hl hr => Operator.sound_scale_left hl hr
    · exact List.mem_append_left _ hn
    · exact List.mem_append_right _ hn
  | scale_right span _ _ _ _ ihl ihr =>
    refine sound_operation span (ihl fun n hn => ha n ?_) (ihr fun n hn => ha n ?_)
      fun l r hl hr => Operator.sound_scale_right hl hr
    · exact List.mem_append_left _ hn
    · exact List.mem_append_right _ hn

end Expr

/-- Types and values in scope are of the same names, and each value has its type. -/
def Agree (types : TypeScope) (values : Scope Literal) : Prop :=
  ∀ name, types.find? name = (values.find? name).map fun value => some value.type

/-- An expression that is typed without a diagnostic has, if any, a value of the
inferred type, and has none exactly when an operation in it meets a color or a
truth value, or numbers whose exact result is out of range. -/
theorem fold?_of_infer {types : TypeScope} {values : Scope Literal} (h : Agree types values)
    {e : Expr} {path : TreePath} {type : Option ValueType}
    (hi : e.infer types path = (type, [])) :
    (∀ v, e.fold? values = some v → type = some v.type) ∧
      (e.fold? values = none ↔ ∃ operator left right span l r,
        (Expr.operation operator left right span).PartOf e ∧ left.fold? values = some l ∧
          right.fold? values = some r ∧ Operator.Fails operator l r) := by
  have hs : types.Shows fun name => (values.find? name).map Literal.type := by
    intro name
    rw [h name, Option.map_map]
    rfl
  obtain ⟨t, rfl, ht⟩ := Expr.hasType_of_infer hs hi
  obtain ⟨hv, hn⟩ : e.Sound values.find? t := ht.sound fun _ _ => rfl
  simp only [Expr.fold?_eq_valueIn]
  refine ⟨fun v hw => ?_, hn, Expr.Stuck.valueIn_eq_none⟩
  rw [hv v hw]

theorem fold?_of_infer_shadowed :
    Agree ⟨[[("C", some .color)], [("C", some .boolean)]]⟩
        ⟨[[("C", .color "#ff0000")], [("C", .boolean true)]]⟩ ∧
      (Expr.operation .add (.reference "C" .unknown) (.reference "C" .unknown) .unknown).infer
        ⟨[[("C", some .color)], [("C", some .boolean)]]⟩ .root = (some .color, []) ∧
      ∃ operator left right span l r,
        (Expr.operation operator left right span).PartOf
          (.operation .add (.reference "C" .unknown) (.reference "C" .unknown) .unknown) ∧
        left.fold? ⟨[[("C", .color "#ff0000")], [("C", .boolean true)]]⟩ = some l ∧
        right.fold? ⟨[[("C", .color "#ff0000")], [("C", .boolean true)]]⟩ = some r ∧
        Operator.Fails operator l r := by
  have h : Agree ⟨[[("C", some .color)], [("C", some .boolean)]]⟩
      ⟨[[("C", .color "#ff0000")], [("C", .boolean true)]]⟩ := by
    intro name
    by_cases hn : name = "C" <;> simp [Scope.find?, Frame.find?, hn, Literal.type]
  have hi : (Expr.operation .add (.reference "C" .unknown) (.reference "C" .unknown) .unknown).infer
      ⟨[[("C", some .color)], [("C", some .boolean)]]⟩ .root = (some .color, []) := by decide
  exact ⟨h, hi, (fold?_of_infer h hi).2.mp (by decide)⟩

end Stylesheet
