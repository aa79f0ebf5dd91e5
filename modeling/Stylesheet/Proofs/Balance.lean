import Stylesheet.Css
import Stylesheet.Proofs.Lexical
import Stylesheet.Proofs.Reports

/-! # Balanced scopes

A frame is open wherever a name is bound, so no walk over a document fails and
every frame that a walk opens is closed at its end. What is left to go wrong is a
root that is no document. An evaluator that has been used before is as good as a
fresh one.
-/

namespace Stylesheet

def Node.isDocument : Node → Bool
  | document .. => true
  | _ => false

theorem Node.document_or (root : Node) :
    (∃ children span, root = document children span) ∨ root.isDocument = false := by
  cases root with
  | document children span => exact .inl ⟨children, span, rfl⟩
  | _ => exact .inr rfl

section Faults

variable {root : Node} {fault : Fault}

theorem check_of_not_document (h : root.isDocument = false) :
    check root = .error root.notDocument := by
  cases root with
  | document children span => cases h
  | _ => rfl

theorem check_eq_error_iff :
    check root = .error fault ↔ root.isDocument = false ∧ fault = root.notDocument := by
  rcases root.document_or with ⟨children, span, rfl⟩ | h
  · simp [check_document, Node.isDocument]
  · simp [check_of_not_document h, h, eq_comm]

theorem Css.render_eq_error_iff :
    (Css.render root).1 = .error fault ↔ root.isDocument = false ∧ fault = root.notDocument := by
  cases root <;> simp [Css.render, Node.isDocument, eq_comm]

end Faults

namespace Evaluator

variable (evaluator : Evaluator)

def applyEach (evaluator : Evaluator) : List Node → List (Applied × Evaluator)
  | [] => []
  | root :: roots => evaluator.apply root :: (evaluator.apply root).2.applyEach roots

theorem apply_document (children : List Node) (span : Span) :
    evaluator.apply (.document children span) =
      (⟨.ok (), .document (Lexical.children Env.empty children) span,
        (Node.document children span).course.filterMap Visit.event?⟩, fresh) := by
  rw [apply, EvalM.evaluateRoot_document]
  rfl

theorem apply_of_not_document {root : Node} (h : root.isDocument = false) :
    evaluator.apply root = (⟨.error root.notDocument, root, []⟩, fresh) := by
  cases root with
  | document children span => cases h
  | _ => rfl

theorem result_eq_error_iff {root : Node} {fault : Fault} :
    (evaluator.apply root).1.result = .error fault ↔
      root.isDocument = false ∧ fault = root.notDocument ∧ (evaluator.apply root).1.tree = root := by
  rcases root.document_or with ⟨children, span, rfl⟩ | h
  · simp [apply_document, Node.isDocument]
  · simp [apply_of_not_document evaluator h, h, eq_comm]

theorem snd_apply (root : Node) : (evaluator.apply root).2 = fresh := by
  rcases root.document_or with ⟨children, span, rfl⟩ | h
  · rw [apply_document]
  · rw [apply_of_not_document evaluator h]

/-- Nothing of the scope before an evaluation matters to it. -/
theorem apply_eq_fresh (root : Node) : evaluator.apply root = fresh.apply root := by
  rcases root.document_or with ⟨children, span, rfl⟩ | h
  · rw [apply_document, apply_document]
  · rw [apply_of_not_document evaluator h, apply_of_not_document fresh h]

theorem applyEach_eq_map (roots : List Node) :
    evaluator.applyEach roots = roots.map fresh.apply := by
  induction roots generalizing evaluator with
  | nil => rfl
  | cons root roots ih => rw [applyEach, ih, apply_eq_fresh, List.map_cons]

end Evaluator

/-- Checking, evaluating and printing fail exactly on a tree whose root is no
document, with the fault that says so, and an evaluator then leaves the tree as it
is. The check of a document closes all frames that it opens. In a series of
evaluations each does what a fresh evaluator does and leaves no frame open, so no
name has a value behind it. -/
theorem passes_fail_iff :
    (∀ root : Node,
      (∀ fault, check root = .error fault ↔
        root.isDocument = false ∧ fault = ⟨.rootNotDocument root.noun, root.span.start⟩) ∧
      (∀ fault, (Css.render root).1 = .error fault ↔
        root.isDocument = false ∧ fault = ⟨.rootNotDocument root.noun, root.span.start⟩) ∧
      ∀ (evaluator : Evaluator) (fault : Fault),
        (evaluator.apply root).1.result = .error fault ↔
          root.isDocument = false ∧ fault = ⟨.rootNotDocument root.noun, root.span.start⟩ ∧
            (evaluator.apply root).1.tree = root) ∧
    (∀ (children : List Node) (span : Span) (scope : TypeScope) (reports : List Diagnostic),
      ∃ more, CheckM.checkRoot (.document children span) ⟨scope, reports⟩ =
        .ok () ⟨scope, reports ++ more⟩) ∧
    ∀ (evaluator : Evaluator) (roots : List Node),
      (evaluator.applyEach roots).map Prod.fst =
        roots.map (fun root => (Evaluator.fresh.apply root).1) ∧
      ∀ step ∈ evaluator.applyEach roots, step.2.scope.isEmpty = true ∧
        ∀ name span, step.2.value? (.reference name span) = none := by
  refine ⟨fun root => ⟨fun fault => check_eq_error_iff, fun fault => Css.render_eq_error_iff,
    fun evaluator fault => evaluator.result_eq_error_iff⟩, fun children span scope reports =>
    ⟨_, CheckM.checkRoot_document children span⟩, fun evaluator roots => ?_⟩
  rw [Evaluator.applyEach_eq_map, List.map_map]
  refine ⟨rfl, fun step hm => ?_⟩
  obtain ⟨root, -, rfl⟩ := List.mem_map.mp hm
  rw [Evaluator.snd_apply]
  exact ⟨rfl, fun name span => rfl⟩

end Stylesheet
