import Mathlib.Logic.Function.Basic
import Stylesheet.Scope

/-! # Environments

An environment is a function from names to values. A scope is read as the
environment of its lookups: opening a frame leaves that environment as it is,
and binding a name updates it at this name only. Walks that carry a scope are
run step by step.
-/

namespace Stylesheet

theorem bind_of_ok {ε σ α β : Type} {step : EStateM ε σ α} {next : α → EStateM ε σ β}
    {s s' : σ} {a : α} (h : step s = .ok a s') : (step >>= next) s = next a s' := by
  change EStateM.bind step next s = _
  rw [EStateM.bind, h]

abbrev Env (α : Type) := String → Option α

def Env.empty {α : Type} : Env α := fun _ => none

namespace Scope

variable {α : Type}

/-- Bind a name in the innermost frame, or in a first one when no frame is open. -/
def insert (scope : Scope α) (name : String) (value : α) : Scope α :=
  ⟨(scope.innermost?.getD []).insert name value :: scope.frames.tail⟩

theorem env_push (scope : Scope α) : scope.push.find? = scope.find? :=
  funext (find?_push scope)

theorem bind_of_open {scope : Scope α} (h : scope.isEmpty = false) (name : String) (value : α)
    (position : Position) : scope.bind name value position = .ok (scope.insert name value) := by
  obtain ⟨frames⟩ := scope
  cases frames with
  | nil => cases h
  | cons frame outer => rfl

theorem env_insert (scope : Scope α) (name : String) (value : α) :
    (scope.insert name value).find? = Function.update scope.find? name (some value) := by
  funext other
  obtain ⟨frames⟩ := scope
  rw [Function.update_apply]
  cases frames with
  | nil =>
    by_cases h : other = name <;>
      simp [find?, insert, Frame.find?_insert, Frame.find?, innermost?, close, h]
  | cons frame outer => exact find?_of_bind (bind_of_open rfl name value .unknown) other

theorem pop_insert (scope : Scope α) (name : String) (value : α) :
    (scope.insert name value).pop = scope.pop := by
  obtain ⟨_ | _⟩ := scope <;> rfl

theorem pop_foldl {β : Type} {step : Scope α → β → Scope α} (h : ∀ s b, (step s b).pop = s.pop)
    (scope : Scope α) (items : List β) : (items.foldl step scope).pop = scope.pop := by
  induction items generalizing scope with
  | nil => rfl
  | cons item items ih => rw [List.foldl_cons, ih, h]

end Scope

end Stylesheet
