import Mathlib.Data.List.Forall2
import Mathlib.Logic.Equiv.Basic
import Stylesheet.Proofs.Acceptance

/-! # Renamed variables

The names of variables are labels. When all variables of a tree are renamed and
no two names become one, every lookup gives what it gave, and so a check and an
evaluation go as they went. A name itself is seen only where a diagnostic shows
it.
-/

namespace Stylesheet

def Expr.rename (f : String → String) : Expr → Expr
  | literal value span => literal value span
  | reference name span => reference (f name) span
  | operation operator left right span =>
    operation operator (left.rename f) (right.rename f) span

namespace Node

mutual

/-- A tree with all its variables renamed, where they are bound and where they
are referred to. -/
def rename (f : String → String) : Node → Node
  | document children span => document (renameAll f children) span
  | rule selectors body span => rule selectors (renameAll f body) span
  | conditional condition body none span =>
    conditional (condition.rename f) (renameAll f body) none span
  | conditional condition body (some ⟨items, place⟩) span =>
    conditional (condition.rename f) (renameAll f body) (some ⟨renameAll f items, place⟩) span
  | alternative ⟨items, place⟩ => alternative ⟨renameAll f items, place⟩
  | declaration property value span => declaration property (value.rename f) span
  | binding name value span => binding (f name) (value.rename f) span

def renameAll (f : String → String) : List Node → List Node
  | [] => []
  | node :: nodes => node.rename f :: renameAll f nodes

end

theorem renameAll_eq_map (f : String → String) (nodes : List Node) :
    renameAll f nodes = nodes.map (rename f) := by
  induction nodes with
  | nil => rfl
  | cons node nodes ih => rw [renameAll, ih, List.map_cons]

@[simp] theorem length_renameAll (f : String → String) (nodes : List Node) :
    (renameAll f nodes).length = nodes.length := by
  rw [renameAll_eq_map, List.length_map]

end Node

/-- What one environment gives a name, another gives the renamed name. -/
def Env.Renames {α : Type} (f : String → String) (env env' : Env α) : Prop :=
  ∀ name, env' (f name) = env name

theorem Env.Renames.update {α : Type} {f : String → String} {env env' : Env α}
    (h : Renames f env env') (hf : Function.Injective f) (name : String) (value : Option α) :
    Renames f (Function.update env name value) (Function.update env' (f name) value) := by
  intro other
  simp only [Function.update_apply, hf.eq_iff, h other]

def unboundMessage (name : String) : String :=
  "variable '" ++ name ++ "' is not defined in current scope"

theorem unboundMessage_inj {name other : String} :
    unboundMessage name = unboundMessage other ↔ name = other := by
  rw [unboundMessage, unboundMessage, String.append_left_inj, String.append_right_inj]

/-- A diagnostic of a renamed tree. It stands at the same place with the same
message, but for the name of a variable that is not bound. -/
structure Diagnostic.Renames (f : String → String) (diagnostic diagnostic' : Diagnostic) :
    Prop where
  path : diagnostic'.path = diagnostic.path
  span : diagnostic'.span = diagnostic.span
  unbound : ∀ name, diagnostic.message = unboundMessage name →
    diagnostic'.message = unboundMessage (f name)
  other : (∀ name, diagnostic.message ≠ unboundMessage name) →
    diagnostic'.message = diagnostic.message

section Diagnostics

variable {f : String → String}

theorem Diagnostic.renames_unbound (path : TreePath) (span : Span) (name : String) :
    Renames f ⟨path, span, unboundMessage name⟩ ⟨path, span, unboundMessage (f name)⟩ := by
  refine ⟨rfl, rfl, fun other h => ?_, fun h => absurd rfl (h name)⟩
  rw [unboundMessage_inj.mp h]

theorem Diagnostic.renames_of_head? {path : TreePath} {span : Span} {message : String}
    (h : message.toList.head? ≠ some 'v') :
    Renames f ⟨path, span, message⟩ ⟨path, span, message⟩ := by
  refine ⟨rfl, rfl, fun name hm => ?_, fun _ => rfl⟩
  obtain rfl : message = unboundMessage name := hm
  exact absurd (by simp [unboundMessage]) h

/-- Diagnostics are sorted by their places, so corresponding ones go to
corresponding places. -/
theorem Diagnostic.sort_renames {reports reports' : List Diagnostic}
    (h : List.Forall₂ (Renames f) reports reports') :
    List.Forall₂ (Renames f) (sort reports) (sort reports') := by
  -- Both lists are sorted as one list of pairs.
  obtain ⟨pairs, rfl, rfl, hp⟩ : ∃ pairs : List (Diagnostic × Diagnostic),
      pairs.map Prod.fst = reports ∧ pairs.map Prod.snd = reports' ∧
        ∀ pair ∈ pairs, Renames f pair.1 pair.2 := by
    obtain ⟨hl, hz⟩ := List.forall₂_iff_zip.mp h
    exact ⟨reports.zip reports', List.map_fst_zip (Nat.le_of_eq hl),
      List.map_snd_zip (Nat.le_of_eq hl.symm), fun _ hm => hz hm⟩
  have hfst : (pairs.mergeSort fun a b => TreePath.le a.1.path b.1.path).map Prod.fst =
      sort (pairs.map Prod.fst) := by
    apply List.map_mergeSort
    intro a _ b _
    rfl
  have hsnd : (pairs.mergeSort fun a b => TreePath.le a.1.path b.1.path).map Prod.snd =
      sort (pairs.map Prod.snd) := by
    apply List.map_mergeSort
    intro a ha b hb
    rw [(hp a ha).path, (hp b hb).path]
  rw [← hfst, ← hsnd, List.forall₂_map_left_iff, List.forall₂_map_right_iff, List.forall₂_same]
  intro pair hm
  exact hp pair ((List.mergeSort_perm _ _).mem_iff.mp hm)

end Diagnostics

/-! ## Checking -/

section Checking

variable {f : String → String} {scope scope' : TypeScope}

namespace Expr

@[simp] theorem span_rename (f : String → String) (e : Expr) : (e.rename f).span = e.span := by
  cases e <;> rfl

@[simp] theorem isPlainLiteral_rename (f : String → String) (e : Expr) :
    (e.rename f).isPlainLiteral = e.isPlainLiteral := by
  cases e <;> rfl

theorem referenceType_rename (h : Env.Renames f scope.find? scope'.find?) (path : TreePath)
    (name : String) (span : Span) :
    (referenceType scope' path (f name) span).1 = (referenceType scope path name span).1 ∧
      List.Forall₂ (Diagnostic.Renames f) (referenceType scope path name span).2
        (referenceType scope' path (f name) span).2 := by
  rw [referenceType, referenceType, h name]
  cases scope.find? name with
  | some type => exact ⟨rfl, .nil⟩
  | none => exact ⟨rfl, .cons (Diagnostic.renames_unbound path span name) .nil⟩

theorem head?_of_operationType {operator : Operator} {left right : Option ValueType}
    {message : String} (h : operationType operator left right = .error message) :
    message.toList.head? ≠ some 'v' := by
  unfold operationType at h
  cases operator with
  | multiply =>
    simp only at h
    split_ifs at h
    cases h
    simp
  | _ =>
    simp only at h
    split_ifs at h
    cases h
    simp

/-- A renamed expression has the type that it had, for the same reasons or none. -/
theorem infer_rename (h : Env.Renames f scope.find? scope'.find?) (e : Expr) (path : TreePath) :
    ((e.rename f).infer scope' path).1 = (e.infer scope path).1 ∧
      List.Forall₂ (Diagnostic.Renames f) (e.infer scope path).2
        ((e.rename f).infer scope' path).2 := by
  induction e generalizing path with
  | literal value span => exact ⟨rfl, .nil⟩
  | reference name span => exact referenceType_rename h path name span
  | operation operator left right span ihl ihr =>
    obtain ⟨htl, hrl⟩ := ihl (path.child 0)
    obtain ⟨htr, hrr⟩ := ihr (path.child 1)
    simp only [rename, infer, isPlainLiteral_rename, htl, htr]
    split_ifs
    · rw [plainOperand, plainOperand, span_rename]
      exact ⟨rfl, .cons (Diagnostic.renames_of_head? (by simp)) .nil⟩
    · rw [plainOperand, plainOperand, span_rename]
      exact ⟨rfl, .cons (Diagnostic.renames_of_head? (by simp)) .nil⟩
    · split
      · exact ⟨rfl, List.rel_append hrl hrr⟩
      · next ho =>
        refine ⟨rfl, List.rel_append (List.rel_append hrl hrr) (.cons ?_ .nil)⟩
        exact Diagnostic.renames_of_head? (head?_of_operationType ho)

theorem inferCondition_rename (h : Env.Renames f scope.find? scope'.find?) (e : Expr)
    (path : TreePath) :
    List.Forall₂ (Diagnostic.Renames f) (e.inferCondition scope path)
      ((e.rename f).inferCondition scope' path) := by
  have hr (span : Span) : Diagnostic.Renames f
      ⟨path, span, "if clause can only contain boolean expressions"⟩
      ⟨path, span, "if clause can only contain boolean expressions"⟩ :=
    Diagnostic.renames_of_head? (by simp)
  cases e with
  | literal value span =>
    simp only [rename, inferCondition]
    split_ifs
    · exact .nil
    · exact .cons (hr span) .nil
  | reference name span =>
    obtain ⟨ht, hd⟩ := referenceType_rename h path name span
    simp only [rename, inferCondition, ht]
    split_ifs
    · exact hd
    · exact List.rel_append hd (.cons (hr span) .nil)
  | operation operator left right span => exact .cons (hr span) .nil

end Expr

namespace TypeScope

theorem renames_push (h : Env.Renames f scope.find? scope'.find?) :
    Env.Renames f scope.push.find? scope'.push.find? := by
  rw [Scope.env_push, Scope.env_push]
  exact h

theorem renames_behind (h : Env.Renames f scope.find? scope'.find?) (hf : Function.Injective f)
    (item : Node) :
    Env.Renames f (scope.behind item).find? (scope'.behind (item.rename f)).find? := by
  cases item with
  | binding name value span =>
    rw [Node.rename, behind, behind, Scope.env_insert, Scope.env_insert,
      (value.infer_rename h .root).1]
    exact h.update hf name _
  | conditional condition body otherwise span => cases otherwise <;> exact h
  | _ => exact h

end TypeScope

theorem head?_of_declarationProblem? {property : String} {type : ValueType} {message : String}
    (h : CheckM.declarationProblem? property type = some message) :
    message.toList.head? ≠ some 'v' := by
  unfold CheckM.declarationProblem? at h
  split at h
  · cases h
    simp
  · split_ifs at h
    cases h
    simp

theorem BlockKind.head?_refusal (kind : BlockKind) : kind.refusal.toList.head? ≠ some 'v' := by
  cases kind <;> simp [refusal]

theorem declarationReports_rename (h : Env.Renames f scope.find? scope'.find?) (path : TreePath)
    (property : String) (value : Expr) (span : Span) :
    List.Forall₂ (Diagnostic.Renames f) (declarationReports scope path property value span)
      (declarationReports scope' path property (value.rename f) span) := by
  obtain ⟨ht, hr⟩ := value.infer_rename h (path.child 0)
  rw [declarationReports, declarationReports, ht]
  refine List.rel_append hr ?_
  cases (value.infer scope (path.child 0)).1 with
  | none => exact .nil
  | some type =>
    rw [List.forall₂_map_left_iff, List.forall₂_map_right_iff, List.forall₂_same]
    intro message hm
    exact Diagnostic.renames_of_head? (head?_of_declarationProblem? (Option.mem_toList.mp hm))

mutual

theorem itemReports_rename {f : String → String} {scope scope' : TypeScope}
    (h : Env.Renames f scope.find? scope'.find?) (hf : Function.Injective f) (kind : BlockKind)
    (path : TreePath) (item : Node) :
    List.Forall₂ (Diagnostic.Renames f) (itemReports scope kind path item)
      (itemReports scope' kind path (item.rename f)) := by
  match item with
  | .declaration property value span =>
    unfold itemReports Node.rename
    exact declarationReports_rename h path property value span
  | .binding name value span =>
    unfold itemReports Node.rename
    exact (value.infer_rename h (path.child 0)).2
  | .conditional condition body none span =>
    unfold itemReports Node.rename
    refine List.rel_append (List.rel_append ?_ ?_) .nil
    · exact condition.inferCondition_rename (TypeScope.renames_push h) (path.child 0)
    · exact bodyReports_rename (TypeScope.renames_push h) hf .conditional path 1 body
  | .conditional condition body (some ⟨items, place⟩) span =>
    unfold itemReports Node.rename
    refine List.rel_append (List.rel_append ?_ ?_) ?_
    · exact condition.inferCondition_rename (TypeScope.renames_push h) (path.child 0)
    · exact bodyReports_rename (TypeScope.renames_push h) hf .conditional path 1 body
    · simp only [Node.length_renameAll]
      exact bodyReports_rename (TypeScope.renames_push h) hf .alternative _ 0 items
  | .alternative ⟨items, span⟩ =>
    unfold itemReports Node.rename
    split_ifs
    · exact bodyReports_rename (TypeScope.renames_push h) hf .alternative path 0 items
    · exact .cons (Diagnostic.renames_of_head? kind.head?_refusal) .nil
  | .rule selectors body span =>
    exact .cons (Diagnostic.renames_of_head? (by simp)) .nil
  | .document children span =>
    exact .cons (Diagnostic.renames_of_head? kind.head?_refusal) .nil

theorem bodyReports_rename {f : String → String} {scope scope' : TypeScope}
    (h : Env.Renames f scope.find? scope'.find?) (hf : Function.Injective f) (kind : BlockKind)
    (path : TreePath) (index : Nat) (items : List Node) :
    List.Forall₂ (Diagnostic.Renames f) (bodyReports scope kind path index items)
      (bodyReports scope' kind path index (Node.renameAll f items)) := by
  match items with
  | [] => exact .nil
  | item :: items =>
    rw [Node.renameAll, bodyReports, bodyReports]
    apply List.rel_append
    · exact itemReports_rename h hf kind (path.child index) item
    · exact bodyReports_rename (TypeScope.renames_behind h hf item) hf kind path (index + 1) items

end

theorem childReports_rename (h : Env.Renames f scope.find? scope'.find?)
    (hf : Function.Injective f) (path : TreePath) (child : Node) :
    List.Forall₂ (Diagnostic.Renames f) (childReports scope path child)
      (childReports scope' path (child.rename f)) := by
  have ho (span : Span) : List.Forall₂ (Diagnostic.Renames f)
      [⟨path, span, "only variable bindings and rules allowed at document level"⟩]
      [⟨path, span, "only variable bindings and rules allowed at document level"⟩] :=
    .cons (Diagnostic.renames_of_head? (by simp)) .nil
  cases child with
  | binding name value span => exact (value.infer_rename h (path.child 0)).2
  | rule selectors body span =>
    exact bodyReports_rename (TypeScope.renames_push h) hf .rule path 0 body
  | conditional condition body otherwise span => cases otherwise <;> exact ho span
  | alternative branch => exact ho branch.span
  | declaration property value span => exact ho span
  | document children span => exact ho span

theorem childrenReports_rename {scope scope' : TypeScope}
    (h : Env.Renames f scope.find? scope'.find?) (hf : Function.Injective f) (index : Nat)
    (children : List Node) :
    List.Forall₂ (Diagnostic.Renames f) (childrenReports scope index children)
      (childrenReports scope' index (Node.renameAll f children)) := by
  induction children generalizing scope scope' index with
  | nil => exact .nil
  | cons child children ih =>
    rw [Node.renameAll, childrenReports, childrenReports]
    apply List.rel_append
    · exact childReports_rename h hf _ child
    · exact ih (TypeScope.renames_behind h hf child) (index + 1)

end Checking

/-! ## Evaluating and printing -/

section Evaluating

variable {f : String → String} {env env' : Env Literal}

namespace Expr

theorem valueIn_rename (h : Env.Renames f env env') (e : Expr) :
    (e.rename f).valueIn env' = e.valueIn env := by
  induction e with
  | literal value span => rfl
  | reference name span => exact h name
  | operation operator left right span ihl ihr => simp only [rename, valueIn, ihl, ihr]

theorem foldedIn_rename (h : Env.Renames f env env') (e : Expr) :
    (e.rename f).foldedIn env' = (e.foldedIn env).rename f := by
  rw [foldedIn, foldedIn, valueIn_rename h, span_rename]
  cases e.valueIn env <;> rfl

end Expr

theorem Env.Renames.behind (h : Env.Renames f env env') (hf : Function.Injective f)
    (item : Node) : Env.Renames f (env.behind item) (env'.behind (item.rename f)) := by
  cases item with
  | binding name value span =>
    simp only [Node.rename, Env.behind, Expr.valueIn_rename h]
    cases value.valueIn env with
    | none => exact h
    | some literal => exact h.update hf name _
  | conditional condition body otherwise span => cases otherwise <;> exact h
  | _ => exact h

namespace Lexical

mutual

theorem item_rename {f : String → String} {env env' : Env Literal} (h : Env.Renames f env env')
    (hf : Function.Injective f) (node : Node) :
    item env' (node.rename f) = Node.renameAll f (item env node) := by
  match node with
  | .declaration property value span =>
    simp only [Node.rename, item, Expr.foldedIn_rename h, Node.renameAll]
  | .conditional condition items none span =>
    rw [Node.rename, item, item, Expr.valueIn_rename h]
    split
    · exact body_rename h hf items
    · rfl
    · rfl
  | .conditional condition items (some ⟨items', place⟩) span =>
    rw [Node.rename, item, item, Expr.valueIn_rename h]
    split
    · exact body_rename h hf items
    · exact body_rename h hf items'
    · rfl
  | .binding _ _ _ => rfl
  | .document _ _ => rfl
  | .rule _ _ _ => rfl
  | .alternative _ => rfl

/-- What a renamed block leaves is renamed, where it still refers to variables. -/
theorem body_rename {f : String → String} {env env' : Env Literal} (h : Env.Renames f env env')
    (hf : Function.Injective f) (items : List Node) :
    body env' (Node.renameAll f items) = Node.renameAll f (body env items) := by
  match items with
  | [] => rfl
  | first :: later =>
    rw [Node.renameAll, body, item_rename h hf first, body_rename (h.behind hf first) hf later,
      body]
    simp only [Node.renameAll_eq_map, List.map_append]

end

theorem children_rename {env env' : Env Literal} (h : Env.Renames f env env')
    (hf : Function.Injective f) (nodes : List Node) :
    children env' (Node.renameAll f nodes) = Node.renameAll f (children env nodes) := by
  induction nodes generalizing env env' with
  | nil => rfl
  | cons node nodes ih =>
    have hb := ih (h.behind hf node)
    cases node with
    | rule selectors items span =>
      simp only [Node.renameAll, Node.rename, children, body_rename h hf items, ih h]
    | conditional condition items otherwise span => cases otherwise <;> exact hb
    | _ => exact hb

end Lexical

namespace Css

theorem printed?_rename (node : Node) : printed? (node.rename f) = printed? node := by
  cases node with
  | declaration property value span => cases value <;> rfl
  | conditional condition body otherwise span => cases otherwise <;> rfl
  | _ => rfl

theorem blocksOf_rename (node : Node) : blocksOf (node.rename f) = blocksOf node := by
  cases node with
  | rule selectors body span =>
    simp only [Node.rename, blocksOf, Node.renameAll_eq_map, List.filterMap_map, Function.comp_def,
      printed?_rename]
  | conditional condition body otherwise span => cases otherwise <;> rfl
  | _ => rfl

end Css

end Evaluating

/-- Variables are labels. When those of a document are renamed so that different
names stay different, a check gives the same diagnostics in the same order, but
for the name in the message on a variable that is not bound, and the document is
evaluated and printed as the same style sheet. -/
theorem variables_are_labels {f : String → String} (hf : Function.Injective f)
    (children : List Node) (span : Span) :
    (∃ diagnostics diagnostics', check (.document children span) = .ok diagnostics ∧
      check ((Node.document children span).rename f) = .ok diagnostics' ∧
      List.Forall₂ (Diagnostic.Renames f) diagnostics diagnostics') ∧
    ∃ css, (produce (.document children span)).1 = .ok css ∧
      (produce ((Node.document children span).rename f)).1 = .ok css := by
  rw [Node.rename]
  constructor
  · have he : Env.Renames f (Scope.empty.push : TypeScope).find? (Scope.empty.push).find? :=
      fun _ => rfl
    exact ⟨_, _, check_document children span, check_document (Node.renameAll f children) span,
      Diagnostic.sort_renames (childrenReports_rename he hf 0 children)⟩
  · have he : Env.Renames f (Env.empty : Env Literal) Env.empty := fun _ => rfl
    refine ⟨_, produce_document children span, ?_⟩
    rw [produce_document, Lexical.children_rename he hf, Node.renameAll_eq_map, List.flatMap_map]
    simp only [Css.blocksOf_rename]

/-- Two names change places, one of them bound in the document and hidden in a
rule, where the other is referred to without being bound. -/
theorem variables_are_labels_swapped :
    Function.Injective (Equiv.swap "A" "B") ∧
      (∃ diagnostics diagnostics',
        check (.document [.binding "A" (.literal (.boolean true) .unknown) .unknown,
          .rule [] [.binding "A" (.reference "B" .unknown) .unknown,
            .declaration "width" (.reference "A" .unknown) .unknown] .unknown] .unknown) =
          .ok diagnostics ∧
        check (.document [.binding "B" (.literal (.boolean true) .unknown) .unknown,
          .rule [] [.binding "B" (.reference "A" .unknown) .unknown,
            .declaration "width" (.reference "B" .unknown) .unknown] .unknown] .unknown) =
          .ok diagnostics' ∧
        List.Forall₂ (Diagnostic.Renames (Equiv.swap "A" "B")) diagnostics diagnostics') ∧
      ∃ css,
        (produce (.document [.binding "A" (.literal (.boolean true) .unknown) .unknown,
          .rule [] [.binding "A" (.reference "B" .unknown) .unknown,
            .declaration "width" (.reference "A" .unknown) .unknown] .unknown] .unknown)).1 =
          .ok css ∧
        (produce (.document [.binding "B" (.literal (.boolean true) .unknown) .unknown,
          .rule [] [.binding "B" (.reference "A" .unknown) .unknown,
            .declaration "width" (.reference "B" .unknown) .unknown] .unknown] .unknown)).1 =
          .ok css := by
  have hi : Function.Injective (Equiv.swap "A" "B") := Equiv.injective _
  exact ⟨hi, variables_are_labels hi [.binding "A" (.literal (.boolean true) .unknown) .unknown,
    .rule [] [.binding "A" (.reference "B" .unknown) .unknown,
      .declaration "width" (.reference "A" .unknown) .unknown] .unknown] .unknown⟩

end Stylesheet
