import Stylesheet.Fault

/-! # Scopes

A scope is a stack of frames. Names are bound in the innermost frame, where a
later binding replaces an earlier one, and looked up from the innermost frame
outwards.
-/

namespace Stylesheet

/-- The names bound in one block, each once. -/
abbrev Frame (α : Type) := List (String × α)

namespace Frame

variable {α : Type}

def insert (frame : Frame α) (name : String) (value : α) : Frame α :=
  (name, value) :: frame.filter (·.1 ≠ name)

def find? : Frame α → String → Option α
  | [], _ => none
  | (bound, value) :: rest, name => if name = bound then some value else find? rest name

theorem find?_filter_ne (frame : Frame α) {name other : String} (h : other ≠ name) :
    find? (frame.filter (·.1 ≠ name)) other = find? frame other := by
  induction frame with
  | nil => rfl
  | cons entry rest ih =>
    obtain ⟨bound, value⟩ := entry
    by_cases hb : bound = name <;> simp_all [find?]

theorem find?_insert (frame : Frame α) (name other : String) (value : α) :
    (frame.insert name value).find? other =
      if other = name then some value else frame.find? other := by
  rw [insert, find?]
  split
  · rfl
  · next h => exact find?_filter_ne frame h

end Frame

structure Scope (α : Type) where
  /-- The open frames, innermost first. -/
  frames : List (Frame α)

namespace Scope

variable {α : Type}

def empty : Scope α := ⟨[]⟩

def push (scope : Scope α) : Scope α := ⟨[] :: scope.frames⟩

/-- Close the innermost frame and give it back, if one is open. -/
def close (scope : Scope α) : Option (Frame α) × Scope α :=
  match scope.frames with
  | [] => (none, scope)
  | frame :: outer => (some frame, ⟨outer⟩)

def pop (scope : Scope α) : Scope α := scope.close.2

def innermost? (scope : Scope α) : Option (Frame α) := scope.close.1

theorem close_eq (scope : Scope α) : scope.close = (scope.frames.head?, ⟨scope.frames.tail⟩) := by
  obtain ⟨_ | _⟩ := scope <;> rfl

theorem pop_eq (scope : Scope α) : scope.pop = ⟨scope.frames.tail⟩ :=
  congrArg Prod.snd scope.close_eq

/-- Bind a name in the innermost frame. It is a fault at `position` when no
frame is open. -/
def bind (scope : Scope α) (name : String) (value : α) (position : Position) :
    Except Fault (Scope α) :=
  match scope.frames with
  | [] => .error ⟨.noScope name, position⟩
  | frame :: outer => .ok ⟨frame.insert name value :: outer⟩

def find? (scope : Scope α) (name : String) : Option α :=
  scope.frames.findSome? (·.find? name)

@[simp] theorem find?_empty (name : String) : (empty : Scope α).find? name = none := rfl

@[simp] theorem find?_push (scope : Scope α) (name : String) :
    scope.push.find? name = scope.find? name := by
  simp [find?, push, List.findSome?_cons, Frame.find?]

@[simp] theorem pop_push (scope : Scope α) : scope.push.pop = scope := rfl

/-- A binding hides the earlier value of its name and of no other. -/
theorem find?_of_bind {scope scope' : Scope α} {name : String} {value : α} {position : Position}
    (h : scope.bind name value position = .ok scope') (other : String) :
    scope'.find? other = if other = name then some value else scope.find? other := by
  obtain ⟨frames⟩ := scope
  cases frames with
  | nil => cases h
  | cons frame outer =>
    cases h
    simp only [find?, List.findSome?_cons, Frame.find?_insert]
    by_cases ho : other = name <;> simp [ho]

def depth (scope : Scope α) : Nat := scope.frames.length

def isEmpty (scope : Scope α) : Bool := scope.frames.isEmpty

end Scope

end Stylesheet
