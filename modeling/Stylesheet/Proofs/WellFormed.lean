import Stylesheet.Proofs.Reports

/-! # Well-formed documents

The rules for what a document may hold, over the types of the variables in
scope. Each block is read in the types around it, extended item by item. A tree
has no diagnostics exactly when it is well formed.
-/

namespace Stylesheet

namespace Expr

/-- A condition is a truth value or a variable of that type. -/
inductive Decides (types : Env ValueType) : Expr → Prop where
  | literal (value : Bool) (span : Span) : Decides types (literal (.boolean value) span)
  | reference {name : String} (span : Span) : types name = some .boolean →
      Decides types (reference name span)

end Expr

/-- The items that a block of some kind may hold. -/
inductive WellFormedBody : BlockKind → Env ValueType → List Node → Prop where

  | nil {kind : BlockKind} {types : Env ValueType} : WellFormedBody kind types []

  | declaration {kind : BlockKind} {types : Env ValueType} {property : String} {value : Expr}
      {type : ValueType} {allowed : List ValueType} {items : List Node} (span : Span) :
      value.HasType types type → propertyTypes? property = some allowed → type ∈ allowed →
      WellFormedBody kind types items →
      WellFormedBody kind types (.declaration property value span :: items)

  | binding {kind : BlockKind} {types : Env ValueType} {name : String} {value : Expr}
      {type : ValueType} {items : List Node} (span : Span) : value.HasType types type →
      WellFormedBody kind (Function.update types name (some type)) items →
      WellFormedBody kind types (.binding name value span :: items)

  | conditional {kind : BlockKind} {types : Env ValueType} {condition : Expr}
      {body : List Node} {otherwise : Option (Block Node)} {items : List Node} (span : Span) :
      condition.Decides types → WellFormedBody .conditional types body →
      (∀ branch, otherwise = some branch → WellFormedBody .alternative types branch.items) →
      WellFormedBody kind types items →
      WellFormedBody kind types (.conditional condition body otherwise span :: items)

  | alternative {types : Env ValueType} {branch : Block Node} {items : List Node} :
      WellFormedBody .alternative types branch.items → WellFormedBody .conditional types items →
      WellFormedBody .conditional types (.alternative branch :: items)

inductive WellFormedChildren : Env ValueType → List Node → Prop where

  | nil {types : Env ValueType} : WellFormedChildren types []

  | binding {types : Env ValueType} {name : String} {value : Expr} {type : ValueType}
      {children : List Node} (span : Span) : value.HasType types type →
      WellFormedChildren (Function.update types name (some type)) children →
      WellFormedChildren types (.binding name value span :: children)

  | rule {types : Env ValueType} {body children : List Node} (selectors : List Selector)
      (span : Span) : WellFormedBody .rule types body → WellFormedChildren types children →
      WellFormedChildren types (.rule selectors body span :: children)

inductive Node.WellFormed : Node → Prop where
  | document {children : List Node} (span : Span) : WellFormedChildren Env.empty children →
      WellFormed (document children span)

namespace WellFormedBody

variable {kind : BlockKind} {types : Env ValueType} {items : List Node}

theorem declaration_iff {property : String} {value : Expr} {span : Span} :
    WellFormedBody kind types (.declaration property value span :: items) ↔
      (∃ type allowed, value.HasType types type ∧ propertyTypes? property = some allowed ∧
        type ∈ allowed) ∧ WellFormedBody kind types items := by
  constructor
  · rintro (_ | ⟨_, ht, ha, hm, hi⟩)
    exact ⟨⟨_, _, ht, ha, hm⟩, hi⟩
  · rintro ⟨⟨type, allowed, ht, ha, hm⟩, hi⟩
    exact .declaration span ht ha hm hi

theorem binding_iff {name : String} {value : Expr} {span : Span} :
    WellFormedBody kind types (.binding name value span :: items) ↔
      ∃ type, value.HasType types type ∧
        WellFormedBody kind (Function.update types name (some type)) items := by
  constructor
  · rintro (_ | _ | ⟨_, ht, hi⟩)
    exact ⟨_, ht, hi⟩
  · rintro ⟨type, ht, hi⟩
    exact .binding span ht hi

theorem conditional_iff {condition : Expr} {body : List Node} {otherwise : Option (Block Node)}
    {span : Span} :
    WellFormedBody kind types (.conditional condition body otherwise span :: items) ↔
      ((condition.Decides types ∧ WellFormedBody .conditional types body) ∧
        ∀ branch, otherwise = some branch → WellFormedBody .alternative types branch.items) ∧
      WellFormedBody kind types items := by
  constructor
  · rintro (_ | _ | _ | ⟨_, hc, hb, ho, hi⟩)
    exact ⟨⟨⟨hc, hb⟩, ho⟩, hi⟩
  · rintro ⟨⟨⟨hc, hb⟩, ho⟩, hi⟩
    exact .conditional span hc hb ho hi

theorem alternative_iff {branch : Block Node} :
    WellFormedBody kind types (.alternative branch :: items) ↔
      (kind = .conditional ∧ WellFormedBody .alternative types branch.items) ∧
        WellFormedBody kind types items := by
  constructor
  · rintro (_ | _ | _ | _ | ⟨hb, hi⟩)
    exact ⟨⟨rfl, hb⟩, hi⟩
  · rintro ⟨⟨rfl, hb⟩, hi⟩
    exact .alternative hb hi

end WellFormedBody

variable {scope : TypeScope} {types : Env ValueType}

theorem TypeScope.Shows.push (h : scope.Shows types) : TypeScope.Shows scope.push types := by
  intro name
  rw [Scope.find?_push, h name]

/-- A binding with a derivable type extends scope and environment alike. -/
theorem TypeScope.Shows.binding (h : scope.Shows types) {value : Expr} {type : ValueType}
    (ht : value.HasType types type) (name : String) (span : Span) :
    (scope.behind (.binding name value span)).Shows (Function.update types name (some type)) := by
  intro other
  simp only [TypeScope.behind, ht.infer h, Scope.env_insert, Function.update_apply, h other]
  split <;> rfl

theorem Expr.snd_infer_eq_nil_iff (h : scope.Shows types) (e : Expr) (path : TreePath) :
    (e.infer scope path).2 = [] ↔ ∃ type, e.HasType types type := by
  constructor
  · intro he
    obtain ⟨type, -, ht⟩ := hasType_of_infer h (Prod.ext rfl he : e.infer scope path = (_, []))
    exact ⟨type, ht⟩
  · rintro ⟨type, ht⟩
    rw [ht.infer h]

theorem Expr.inferCondition_eq_nil_iff (h : scope.Shows types) (condition : Expr)
    (path : TreePath) :
    condition.inferCondition scope path = [] ↔ condition.Decides types := by
  cases condition with
  | literal value span =>
    cases value with
    | boolean b => exact ⟨fun _ => .literal b span, fun _ => rfl⟩
    | color text => exact iff_of_false (by rintro ⟨⟩) (by rintro ⟨⟩)
    | quantity number dimension => exact iff_of_false (by rintro ⟨⟩) (by rintro ⟨⟩)
  | reference name span =>
    have hd : (reference name span).Decides types ↔ types name = some .boolean :=
      ⟨fun hd => by cases hd; assumption, fun ht => .reference span ht⟩
    rw [hd]
    simp only [inferCondition, referenceType, h name]
    cases types name with
    | none => simp
    | some type => by_cases hb : type = .boolean <;> simp [hb]
  | operation operator left right span => exact iff_of_false (by rintro ⟨⟩) (by rintro ⟨⟩)

theorem declarationProblem?_eq_none_iff (property : String) (type : ValueType) :
    CheckM.declarationProblem? property type = none ↔
      ∃ allowed, propertyTypes? property = some allowed ∧ type ∈ allowed := by
  unfold CheckM.declarationProblem?
  cases propertyTypes? property with
  | none => simp
  | some allowed => by_cases hm : type ∈ allowed <;> simp [hm]

theorem declarationReports_eq_nil_iff (h : scope.Shows types) (path : TreePath)
    (property : String) (value : Expr) (span : Span) :
    declarationReports scope path property value span = [] ↔
      ∃ type allowed, value.HasType types type ∧ propertyTypes? property = some allowed ∧
        type ∈ allowed := by
  rw [declarationReports, List.append_eq_nil_iff, Expr.snd_infer_eq_nil_iff h]
  constructor
  · rintro ⟨⟨type, ht⟩, hp⟩
    simp only [ht.infer h, List.map_eq_nil_iff, Option.toList_eq_nil_iff,
      declarationProblem?_eq_none_iff] at hp
    obtain ⟨allowed, ha, hm⟩ := hp
    exact ⟨type, allowed, ht, ha, hm⟩
  · rintro ⟨type, allowed, ht, ha, hm⟩
    refine ⟨⟨type, ht⟩, ?_⟩
    simp only [ht.infer h, List.map_eq_nil_iff, Option.toList_eq_nil_iff,
      declarationProblem?_eq_none_iff]
    exact ⟨allowed, ha, hm⟩

/-- A block has no diagnostics exactly when it is well formed. -/
theorem bodyReports_eq_nil_iff {scope : TypeScope} {types : Env ValueType}
    (h : scope.Shows types) (kind : BlockKind) (path : TreePath) (index : Nat)
    (items : List Node) :
    bodyReports scope kind path index items = [] ↔ WellFormedBody kind types items := by
  cases items with
  | nil => exact ⟨fun _ => .nil, fun _ => rfl⟩
  | cons item items =>
    rw [bodyReports, List.append_eq_nil_iff]
    cases item with
    | declaration property value span =>
      unfold itemReports
      rw [declarationReports_eq_nil_iff h, WellFormedBody.declaration_iff]
      exact and_congr_right fun _ => bodyReports_eq_nil_iff h kind path (index + 1) items
    | binding name value span =>
      unfold itemReports
      rw [Expr.snd_infer_eq_nil_iff h, WellFormedBody.binding_iff, ← exists_and_right]
      exact exists_congr fun type => and_congr_right fun ht =>
        bodyReports_eq_nil_iff (h.binding ht name span) kind path (index + 1) items
    | conditional condition body otherwise span =>
      unfold itemReports
      rw [List.append_eq_nil_iff, List.append_eq_nil_iff,
        Expr.inferCondition_eq_nil_iff h.push, WellFormedBody.conditional_iff,
        bodyReports_eq_nil_iff h.push .conditional (path.child index) 1 body]
      refine and_congr (and_congr_right fun _ => ?_)
        (bodyReports_eq_nil_iff h kind path (index + 1) items)
      cases otherwise with
      | none => simp
      | some branch =>
        obtain ⟨branch, _⟩ := branch
        simp only [Option.some.injEq, forall_eq']
        exact bodyReports_eq_nil_iff h.push .alternative _ 0 branch
    | alternative branch =>
      obtain ⟨branch, _⟩ := branch
      unfold itemReports
      rw [WellFormedBody.alternative_iff]
      refine and_congr ?_ (bodyReports_eq_nil_iff h kind path (index + 1) items)
      split_ifs with hk
      · rw [bodyReports_eq_nil_iff h.push .alternative _ 0 branch]
        simp [hk]
      · simp [hk]
    | _ => exact iff_of_false (by rintro ⟨⟨⟩, -⟩) (by rintro ⟨⟩)

theorem childrenReports_eq_nil_iff {scope : TypeScope} {types : Env ValueType}
    (h : scope.Shows types) (index : Nat) (children : List Node) :
    childrenReports scope index children = [] ↔ WellFormedChildren types children := by
  induction children generalizing scope types index with
  | nil => exact ⟨fun _ => .nil, fun _ => rfl⟩
  | cons child children ih =>
    rw [childrenReports, List.append_eq_nil_iff]
    cases child with
    | binding name value span =>
      rw [childReports, Expr.snd_infer_eq_nil_iff h, ← exists_and_right]
      constructor
      · rintro ⟨type, ht, hc⟩
        exact .binding span ht ((ih (h.binding ht name span) (index + 1)).mp hc)
      · rintro (_ | ⟨_, ht, hc⟩)
        exact ⟨_, ht, (ih (h.binding ht name span) (index + 1)).mpr hc⟩
    | rule selectors body span =>
      rw [childReports, bodyReports_eq_nil_iff h.push]
      constructor
      · rintro ⟨hb, hc⟩
        exact .rule selectors span hb ((ih h (index + 1)).mp hc)
      · rintro (_ | _ | ⟨_, _, hb, hc⟩)
        exact ⟨hb, (ih h (index + 1)).mpr hc⟩
    | _ => exact iff_of_false (by rintro ⟨⟨⟩, -⟩) (by rintro ⟨⟩)

theorem Diagnostic.sort_eq_nil_iff (diagnostics : List Diagnostic) :
    sort diagnostics = [] ↔ diagnostics = [] := by
  rw [sort, ← List.length_eq_zero_iff, List.length_mergeSort, List.length_eq_zero_iff]

theorem check_document_eq_nil_iff (children : List Node) (span : Span) :
    check (.document children span) = .ok [] ↔ WellFormedChildren Env.empty children := by
  have hs : TypeScope.Shows Scope.empty.push Env.empty := fun name => by simp [Env.empty]
  rw [check_document, Except.ok.injEq, Diagnostic.sort_eq_nil_iff, childrenReports_eq_nil_iff hs]

theorem wellFormed_of_check {root : Node} (h : check root = .ok []) : root.WellFormed := by
  cases root with
  | document children span => exact .document span ((check_document_eq_nil_iff children span).mp h)
  | _ => cases h

/-- Checking finds no problem in a tree exactly when the tree is a well-formed
document. -/
theorem check_eq_nil_iff_wellFormed (root : Node) : check root = .ok [] ↔ root.WellFormed := by
  constructor
  · exact wellFormed_of_check
  · rintro ⟨span, hc⟩
    exact (check_document_eq_nil_iff _ span).mpr hc

end Stylesheet
