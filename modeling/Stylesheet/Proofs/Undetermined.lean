import Mathlib.Logic.Relation
import Stylesheet.Proofs.Addresses
import Stylesheet.Proofs.History
import Stylesheet.Proofs.Stepwise

/-! # Types that cannot be determined

A type that is not known spreads without further diagnostics: through variables, through
sums of two such operands and through products with a scalar. But where it comes from
has been reported. At every step of a check, each variable of unknown type and each
expression that was found to have none leads to a diagnostic, in the expression itself
or in one that it refers to.
-/

namespace Stylesheet

theorem Frame.mem_of_find? {α : Type} {frame : Frame α} {name : String} {value : α}
    (h : frame.find? name = some value) : (name, value) ∈ frame := by
  induction frame with
  | nil => cases h
  | cons entry rest ih =>
    rw [find?] at h
    split at h
    · next hn =>
      cases h
      exact hn ▸ List.mem_cons_self
    · exact List.mem_cons_of_mem _ (ih h)

namespace Scope

variable {α : Type} {P Q : String → α → Prop} {scope scope' : Scope α} {name : String} {value : α}

/-- All that is bound in any of the open frames has a property. -/
def Every (P : String → α → Prop) (scope : Scope α) : Prop :=
  ∀ frame ∈ scope.frames, ∀ name value, (name, value) ∈ frame → P name value

theorem Every.imp (h : scope.Every P) (hpq : ∀ name value, P name value → Q name value) :
    scope.Every Q :=
  fun frame hf name value hm => hpq name value (h frame hf name value hm)

theorem Every.push (h : scope.Every P) : scope.push.Every P := by
  rintro frame hf name value hm
  rcases List.mem_cons.mp hf with rfl | hf
  · cases hm
  · exact h frame hf name value hm

theorem Every.pop (h : scope.Every P) : scope.pop.Every P := by
  rw [pop_eq]
  exact fun frame hf => h frame (List.mem_of_mem_tail hf)

theorem Every.bind {position : Position} (h : scope.Every P) (hv : P name value)
    (hb : scope.bind name value position = .ok scope') : scope'.Every P := by
  obtain ⟨frames⟩ := scope
  cases frames with
  | nil => cases hb
  | cons inner outer =>
    cases hb
    rintro frame hf other given hm
    rcases List.mem_cons.mp hf with rfl | hf
    · rcases Frame.mem_insert_iff.mp hm with ⟨rfl, rfl⟩ | ⟨-, hm⟩
      · exact hv
      · exact h inner List.mem_cons_self other given hm
    · exact h frame (List.mem_cons_of_mem _ hf) other given hm

theorem Every.find? (h : scope.Every P) (hf : scope.find? name = some value) : P name value := by
  obtain ⟨frame, hm, hv⟩ := List.exists_of_findSome?_eq_some hf
  exact h frame hm name value (Frame.mem_of_find? hv)

end Scope

namespace Part

theorem at?_child {root part inner : Part} {path : TreePath} {index : Nat}
    (h : root.at? path = some part) (hc : part.children[index]? = some inner) :
    root.at? (path.child index) = some inner := by
  induction path generalizing root with
  | nil =>
    cases h
    exact at?_cons_eq_some_iff.mpr ⟨inner, hc, rfl⟩
  | cons first path ih =>
    obtain ⟨between, hb, h⟩ := at?_cons_eq_some_iff.mp h
    exact at?_cons_eq_some_iff.mpr ⟨between, hb, ih h⟩

/-- The expression at an address is what some binding in the tree binds a name to. -/
def BoundTo (root : Part) (name : String) (origin : TreePath) : Prop :=
  ∃ path value span, root.at? path = some (.node (.binding name value span)) ∧
    origin = path.child 0

def HasExpr (root : Part) (path : TreePath) : Prop := ∃ e, root.at? path = some (.expr e)

end Part

theorem Expr.operationType_eq_ok_none {operator : Operator} {left right : Option ValueType}
    (h : operationType operator left right = .ok none) : left = none ∨ right = none := by
  cases operator <;> simp only [operationType] at h <;> split_ifs at h <;> simp_all

namespace Stepwise

namespace Machine

def note (m : Machine) (reference target : TreePath) : Machine :=
  { m with lookups := m.lookups ++ [(reference, target)] }

/-- A reference in the expression at an address has been resolved to the expression at
another one. -/
def Refers (m : Machine) (path target : TreePath) : Prop :=
  ∃ reference, (reference, target) ∈ m.lookups ∧ path <+: reference

/-- There is a diagnostic in the expression at an address, or in an expression that it
refers to, directly or through others. -/
def Blamed (m : Machine) (path : TreePath) : Prop :=
  ∃ source, Relation.ReflTransGen m.Refers path source ∧
    ∃ diagnostic ∈ m.reports, source <+: diagnostic.path

variable {m m' : Machine} {path target : TreePath}

theorem Blamed.mono (h : m.Blamed path) (hr : m.reports ⊆ m'.reports)
    (hl : m.lookups ⊆ m'.lookups) : m'.Blamed path := by
  obtain ⟨source, hs, diagnostic, hd, hp⟩ := h
  refine ⟨source, Relation.ReflTransGen.mono ?_ _ _ hs, diagnostic, hr hd, hp⟩
  rintro p q ⟨reference, hm, hpr⟩
  exact ⟨reference, hl hm, hpr⟩

theorem Blamed.of_mem {diagnostic : Diagnostic} (hd : diagnostic ∈ m.reports)
    (hp : path <+: diagnostic.path) : m.Blamed path :=
  ⟨path, .refl, diagnostic, hd, hp⟩

theorem Blamed.through (hr : m.Refers path target) (h : m.Blamed target) : m.Blamed path := by
  obtain ⟨source, hs, hd⟩ := h
  exact ⟨source, .head hr hs, hd⟩

theorem Blamed.outward (hp : path <+: target) (h : m.Blamed target) : m.Blamed path := by
  obtain ⟨source, hs, diagnostic, hd, hps⟩ := h
  rcases hs.cases_head with rfl | ⟨next, ⟨reference, hm, hpr⟩, hs⟩
  · exact .of_mem hd (hp.trans hps)
  · exact ⟨source, .head ⟨reference, hm, hp.trans hpr⟩ hs, diagnostic, hd, hps⟩

end Machine

def Instruction.Placed (root : Part) : Instruction → Prop
  | .literal path _ => root.HasExpr path
  | .lookup path name span => root.at? path = some (.expr (.reference name span))
  | .refuse path diagnostic => root.HasExpr path ∧ path <+: diagnostic.path
  | .operate path _ _ => root.HasExpr path
  | .bind path name _ => ∃ value span, root.at? path = some (.node (.binding name value span))
  | _ => True

/-- What is known is accounted for: bound expressions, expressions with a type and
resolved references have their place in the tree, and there is a diagnostic to blame for
each type that could not be determined. -/
structure Accounted (root : Part) (m : Machine) : Prop where
  bound : m.scope.Every fun name binder =>
    root.BoundTo name binder.origin ∧ (binder.type = none → m.Blamed binder.origin)
  returned : ∀ result ∈ m.returned, root.HasExpr result.1 ∧ (result.2 = none → m.Blamed result.1)
  lookups : ∀ lookup ∈ m.lookups, ∃ name span,
    root.at? lookup.1 = some (.expr (.reference name span)) ∧ root.BoundTo name lookup.2

namespace Accounted

variable {root : Part} {m m' : Machine} {path : TreePath}

theorem start : Accounted root .start :=
  ⟨by rintro frame ⟨⟩, by rintro result ⟨⟩, by rintro lookup ⟨⟩⟩

theorem grow {reports : List Diagnostic} {lookups : List (TreePath × TreePath)}
    (h : Accounted root m) (hr : m.reports ⊆ reports) (hl : m.lookups ⊆ lookups)
    (hp : ∀ lookup ∈ lookups, ∃ name span,
      root.at? lookup.1 = some (.expr (.reference name span)) ∧ root.BoundTo name lookup.2) :
    Accounted root { m with reports, lookups } := by
  have hb {p : TreePath} (hp : m.Blamed p) : Machine.Blamed { m with reports, lookups } p :=
    hp.mono hr hl
  exact ⟨h.bound.imp fun _ _ ⟨ho, hn⟩ => ⟨ho, fun ht => hb (hn ht)⟩,
    fun result hr => (h.returned result hr).imp_right fun hn ht => hb (hn ht), hp⟩

theorem report (h : Accounted root m) (diagnostics : List Diagnostic) :
    Accounted root (m.report diagnostics) :=
  h.grow (List.subset_append_left _ _) (List.Subset.refl _) h.lookups

theorem give {type : Option ValueType} (h : Accounted root m) (he : root.HasExpr path)
    (hb : type = none → m.Blamed path) : Accounted root (m.give path type) :=
  ⟨h.bound, List.forall_mem_cons.mpr ⟨⟨he, hb⟩, h.returned⟩, h.lookups⟩

theorem note {name : String} {span : Span} {target : TreePath} (h : Accounted root m)
    (hp : root.at? path = some (.expr (.reference name span))) (ht : root.BoundTo name target) :
    Accounted root (m.note path target) :=
  h.grow (List.Subset.refl _) (List.subset_append_left _ _) (List.forall_mem_append.mpr
    ⟨h.lookups, List.forall_mem_singleton.mpr ⟨name, span, hp, ht⟩⟩)

end Accounted

section Steps

variable {root : Part} {m m' : Machine} {path : TreePath} {name : String} {span : Span}

theorem step_lookup (h : step m (.lookup path name span) = some m') :
    (∃ binder, m.scope.find? name = some binder ∧
      m' = (m.note path binder.origin).give path binder.type) ∨
    ∃ message, m' = (m.report [⟨path, span, message⟩]).give path none := by
  cases hf : m.scope.find? name with
  | some binder =>
    simp only [step, Expr.referenceType, Machine.types, Scope.find?_mapValues, hf, Option.map_some,
      Option.toList_some, List.map_cons, List.map_nil, Machine.report, List.append_nil] at h
    cases h
    exact .inl ⟨binder, rfl, rfl⟩
  | none =>
    simp only [step, Expr.referenceType, Machine.types, Scope.find?_mapValues, hf,
      Option.map_none, Option.toList_none, List.map_nil, List.append_nil] at h
    cases h
    exact .inr ⟨_, rfl⟩

theorem step_operate {operator : Operator} (h : step m (.operate path operator span) = some m') :
    ∃ left right returned,
      m.returned = (path.child 1, right) :: (path.child 0, left) :: returned ∧
      ((∃ type, Expr.operationType operator left right = .ok type ∧
          m' = Machine.give { m with returned } path type) ∨
        ∃ message,
          m' = (Machine.report { m with returned } [⟨path, span, message⟩]).give path none) := by
  simp only [step] at h
  split at h
  · next right rightType left leftType returned hr =>
    split_ifs at h with hp
    obtain ⟨rfl, rfl⟩ := hp
    refine ⟨leftType, rightType, returned, hr, ?_⟩
    cases ho : Expr.operationType operator leftType rightType with
    | ok type =>
      rw [ho] at h
      cases h
      exact .inl ⟨type, rfl, rfl⟩
    | error message =>
      rw [ho] at h
      cases h
      exact .inr ⟨message, rfl⟩
  · cases h

theorem step_bind {position : Position} (h : step m (.bind path name position) = some m') :
    ∃ type returned scope, m.returned = (path.child 0, type) :: returned ∧
      m.scope.bind name ⟨type, path.child 0⟩ position = .ok scope ∧
      m' = { m with scope, returned } := by
  simp only [step] at h
  split at h
  · next origin type returned hr =>
    split_ifs at h with hp
    subst hp
    cases hb : m.scope.bind name ⟨type, path.child 0⟩ position with
    | ok scope =>
      rw [hb] at h
      cases h
      exact ⟨type, returned, scope, hr, hb, rfl⟩
    | error fault =>
      rw [hb] at h
      cases h
  · cases h

theorem Accounted.drop {returned : List (TreePath × Option ValueType)} (h : Accounted root m)
    (hr : returned <:+ m.returned) : Accounted root { m with returned } :=
  ⟨h.bound, fun result hm => h.returned result (hr.subset hm), h.lookups⟩

theorem Accounted.step {instruction : Instruction} (h : Accounted root m)
    (hp : instruction.Placed root) (hs : step m instruction = some m') : Accounted root m' := by
  cases instruction with
  | enter =>
    cases hs
    exact ⟨h.bound.push, h.returned, h.lookups⟩
  | leave =>
    cases hs
    exact ⟨h.bound.pop, h.returned, h.lookups⟩
  | report diagnostic =>
    cases hs
    exact h.report _
  | condition path e =>
    cases hs
    exact h.report _
  | literal path type =>
    cases hs
    exact h.give hp fun ht => by cases ht
  | lookup path name span =>
    rcases step_lookup hs with ⟨binder, hf, rfl⟩ | ⟨message, rfl⟩
    · obtain ⟨ho, hn⟩ := h.bound.find? hf
      refine (h.note hp ho).give ⟨_, hp⟩ fun ht => ?_
      -- The variable has no type because the expression it is bound to has none.
      have hr : (m.note path binder.origin).Refers path binder.origin :=
        ⟨path, by simp [Machine.note], List.prefix_rfl⟩
      exact .through hr ((hn ht).mono (List.Subset.refl _) (List.subset_append_left _ _))
    · exact (h.report _).give ⟨_, hp⟩ fun _ =>
        .of_mem (List.mem_append_right _ (List.mem_singleton.mpr rfl)) List.prefix_rfl
  | refuse path diagnostic =>
    cases hs
    exact (h.report _).give hp.1 fun _ =>
      .of_mem (List.mem_append_right _ (List.mem_singleton.mpr rfl)) hp.2
  | operate path operator span =>
    obtain ⟨left, right, returned, hr, ho⟩ := step_operate hs
    have hd : Accounted root { m with returned } :=
      h.drop ⟨[(path.child 1, right), (path.child 0, left)], hr.symm⟩
    rcases ho with ⟨type, ht, rfl⟩ | ⟨message, rfl⟩
    · refine hd.give hp fun hn => ?_
      subst hn
      have hl := h.returned (path.child 0, left) (by simp [hr])
      have hr := h.returned (path.child 1, right) (by simp [hr])
      rcases Expr.operationType_eq_ok_none ht with rfl | rfl
      · exact (hl.2 rfl).outward (List.prefix_append path [0])
      · exact (hr.2 rfl).outward (List.prefix_append path [1])
    · exact (hd.report _).give hp fun _ =>
        .of_mem (List.mem_append_right _ (List.mem_singleton.mpr rfl)) List.prefix_rfl
  | bind path name position =>
    obtain ⟨type, returned, scope, hr, hb, rfl⟩ := step_bind hs
    obtain ⟨value, span, hv⟩ := hp
    have hd : Accounted root { m with returned } := h.drop ⟨[(path.child 0, type)], hr.symm⟩
    have ho := h.returned (path.child 0, type) (by simp [hr])
    exact ⟨h.bound.bind ⟨⟨path, value, span, hv, rfl⟩, ho.2⟩ hb, hd.returned, hd.lookups⟩
  | declare path property span =>
    simp only [Stepwise.step] at hs
    split at hs
    · next origin type returned hr =>
      cases hs
      exact (h.drop ⟨[(origin, type)], hr.symm⟩).report _
    · cases hs

/-- A whole run keeps account. -/
theorem Accounted.run {code : List Instruction} (h : Accounted root m)
    (hp : ∀ instruction ∈ code, instruction.Placed root) (hr : run m code = some m') :
    Accounted root m' := by
  induction code generalizing m with
  | nil =>
    cases hr
    exact h
  | cons first later ih =>
    rw [run_cons] at hr
    obtain ⟨between, hs, hr⟩ := Option.bind_eq_some_iff.mp hr
    obtain ⟨hf, hl⟩ := List.forall_mem_cons.mp hp
    exact ih (h.step hf hs) hl hr

end Steps

section Placed

variable {root : Part} {path : TreePath} {index : Nat}

def AllPlaced (root : Part) (code : List Instruction) : Prop :=
  ∀ instruction ∈ code, instruction.Placed root

theorem placed_typing {e : Expr} (h : root.at? path = some (.expr e)) :
    AllPlaced root (typing path e) := by
  induction e generalizing path with
  | literal value span => exact List.forall_mem_singleton.mpr ⟨_, h⟩
  | reference name span => exact List.forall_mem_singleton.mpr h
  | operation operator left right span ihl ihr =>
    unfold typing
    split_ifs
    · exact List.forall_mem_singleton.mpr ⟨⟨_, h⟩, List.prefix_append path [0]⟩
    · exact List.forall_mem_singleton.mpr ⟨⟨_, h⟩, List.prefix_append path [1]⟩
    · refine List.forall_mem_append.mpr ⟨List.forall_mem_append.mpr ⟨?_, ?_⟩, ?_⟩
      · exact ihl (Part.at?_child h rfl)
      · exact ihr (Part.at?_child h rfl)
      · exact List.forall_mem_singleton.mpr ⟨_, h⟩

theorem placed_binding {name : String} {value : Expr} {span : Span}
    (h : root.at? path = some (.node (.binding name value span))) :
    AllPlaced root (binding path name value span) :=
  List.forall_mem_append.mpr
    ⟨placed_typing (Part.at?_child h rfl), List.forall_mem_singleton.mpr ⟨value, span, h⟩⟩

theorem placed_framed {code : List Instruction} (h : AllPlaced root code) :
    AllPlaced root (framed code) :=
  List.forall_mem_append.mpr
    ⟨List.forall_mem_cons.mpr ⟨trivial, h⟩, List.forall_mem_singleton.mpr trivial⟩

mutual

theorem placed_item {path : TreePath} (kind : BlockKind) (node : Node)
    (h : root.at? path = some (.node node)) : AllPlaced root (item kind path node) := by
  match node with
  | .declaration property value span =>
    unfold item
    exact List.forall_mem_append.mpr
      ⟨placed_typing (Part.at?_child h rfl), List.forall_mem_singleton.mpr trivial⟩
  | .binding name value span =>
    unfold item
    exact placed_binding h
  | .conditional condition items otherwise span =>
    unfold item
    have hb : AllPlaced root (body .conditional path 1 items) :=
      placed_body .conditional items fun i inner hi =>
        Part.at?_child h (Part.children_conditional_body hi)
    refine List.forall_mem_append.mpr
      ⟨placed_framed (List.forall_mem_cons.mpr ⟨trivial, hb⟩), ?_⟩
    match otherwise with
    | none => exact List.forall_mem_nil _
    | some ⟨others, place⟩ =>
      have ho := Part.at?_child h Part.children_conditional_otherwise
      exact placed_framed (placed_body .alternative others fun i inner hi =>
        Part.at?_child ho (Part.getElem?_map_node hi))
  | .alternative ⟨items, span⟩ =>
    unfold item
    split_ifs
    · exact placed_framed (placed_body .alternative items fun i inner hi =>
        Part.at?_child h (Part.getElem?_map_node hi))
    · exact List.forall_mem_singleton.mpr trivial
  | .rule _ _ span =>
    unfold item
    exact List.forall_mem_singleton.mpr trivial
  | .document _ span =>
    unfold item
    exact List.forall_mem_singleton.mpr trivial

theorem placed_body {path : TreePath} {index : Nat} (kind : BlockKind) (items : List Node)
    (h : ∀ i node, items[i]? = some node → root.at? (path.child (index + i)) = some (.node node)) :
    AllPlaced root (body kind path index items) := by
  match items with
  | [] =>
    unfold body
    exact List.forall_mem_nil _
  | first :: later =>
    unfold body
    refine List.forall_mem_append.mpr
      ⟨placed_item kind first (h 0 first rfl), placed_body kind later fun i node hi => ?_⟩
    rw [Nat.add_assoc, Nat.add_comm 1 i]
    exact h (i + 1) node hi

end

theorem placed_child {node : Node} (h : root.at? path = some (.node node)) :
    AllPlaced root (child path node) := by
  cases node with
  | binding name value span => exact placed_binding h
  | rule selectors items span =>
    exact placed_framed (placed_body .rule items fun i inner hi =>
      Part.at?_child h (Part.getElem?_map_node hi))
  | _ => exact List.forall_mem_singleton.mpr trivial

theorem placed_children {nodes : List Node}
    (h : ∀ i node, nodes[i]? = some node →
      root.at? (TreePath.root.child (index + i)) = some (.node node)) :
    AllPlaced root (children index nodes) := by
  induction nodes generalizing index with
  | nil => exact List.forall_mem_nil _
  | cons first later ih =>
    refine List.forall_mem_append.mpr ⟨placed_child (h 0 first rfl), ih fun i node hi => ?_⟩
    rw [Nat.add_assoc, Nat.add_comm 1 i]
    exact h (i + 1) node hi

theorem placed_program (nodes : List Node) (span : Span) :
    AllPlaced (.node (.document nodes span)) (program nodes) :=
  placed_framed (placed_children fun _ _ hi => Part.at?_child rfl (Part.getElem?_map_node hi))

end Placed

/-- The machine has run the first instructions of the program of a document. -/
def Reached (nodes : List Node) (m : Machine) : Prop :=
  ∃ done later, program nodes = done ++ later ∧ run .start done = some m

/-- A type that cannot be determined is never silent. The instructions for an expression,
for an item and for the whole document take the machine through the states of the check.
At every step of the document, a variable that is bound to no type in any open frame, and
an expression whose type has come out unknown and is still to be used, have a diagnostic
that has been reported already: in the expression itself, or in one that it refers to,
directly or through others. What the machine notes for this is right: a variable comes
with the address of an expression that a binding of its name binds, and a reference that
has been resolved leads to such an address. -/
theorem undetermined_never_silent (nodes : List Node) (span : Span) :
    (∀ m path e, ∃ m' type, run m (typing path e) = some m' ∧
      CheckM.typeOf path e m.state = .ok type m'.state ∧
      m'.returned = (path, type) :: m.returned) ∧
    (∀ kind path node, Mirrors (item kind path node) (CheckM.checkItem kind path node)) ∧
    MirrorsAt .start (program nodes) (CheckM.checkRoot (.document nodes span)) ∧
    ∀ m, Reached nodes m →
      (∀ frame ∈ m.scope.frames, ∀ name binder, (name, binder) ∈ frame →
        (Part.node (.document nodes span)).BoundTo name binder.origin ∧
          (binder.type = none → m.Blamed binder.origin)) ∧
      (∀ result ∈ m.returned, (Part.node (.document nodes span)).HasExpr result.1 ∧
        (result.2 = none → m.Blamed result.1)) ∧
      ∀ lookup ∈ m.lookups, ∃ name place,
        (Part.node (.document nodes span)).at? lookup.1 = some (.expr (.reference name place)) ∧
          (Part.node (.document nodes span)).BoundTo name lookup.2 := by
  refine ⟨fun m path e => ?_, mirrors_item, mirrors_program nodes span, ?_⟩
  · obtain ⟨lookups, hr⟩ := run_typing m path e
    exact ⟨_, _, hr, CheckM.typeOf_run path e, rfl⟩
  · rintro m ⟨done, later, hc, hr⟩
    have hp : AllPlaced (.node (.document nodes span)) done := by
      have hall := placed_program nodes span
      rw [hc] at hall
      exact (List.forall_mem_append.mp hall).1
    have h := Accounted.start.run hp hr
    exact ⟨h.bound, h.returned, h.lookups⟩

end Stepwise

end Stylesheet
