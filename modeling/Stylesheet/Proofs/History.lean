import Mathlib.Data.List.Induction
import Stylesheet.Scope

/-! # Histories of a scope

What is done with a scope, one action behind the other, is its history. A frame
is told by the push that opens it. It is open until its own pop, and it is on
top whenever all that was opened behind it is closed again. A name has the value
that it was given last while the innermost open frame that binds it was on top.
-/

namespace Stylesheet

namespace Scope

variable {α : Type}

inductive Action (α : Type) where
  | push
  | pop
  | bind (name : String) (value : α) (position : Position)
  | resolve (name : String)

/-- The scope behind an action. A lookup changes nothing, and neither does a
binding that fails. -/
def act (scope : Scope α) : Action α → Scope α
  | .push => scope.push
  | .pop => scope.pop
  | .bind name value position =>
    match scope.bind name value position with
    | .ok scope' => scope'
    | .error _ => scope
  | .resolve _ => scope

def after (history : List (Action α)) : Scope α := history.foldl act empty

/-- How many frames stand above a frame behind some actions, if that many stood
above it before them. There is no answer once the frame itself is closed. -/
def height : List (Action α) → Nat → Option Nat
  | [], level => some level
  | .push :: later, level => height later (level + 1)
  | .pop :: _, 0 => none
  | .pop :: later, level + 1 => height later level
  | .bind .. :: later, level => height later level
  | .resolve _ :: later, level => height later level

/-- All that is opened is closed again, and nothing else is closed. So a frame
that is on top before these actions is on top behind them. -/
def Balanced (actions : List (Action α)) : Prop := height actions 0 = some 0

instance (actions : List (Action α)) : Decidable (Balanced actions) :=
  inferInstanceAs (Decidable (height actions 0 = some 0))

/-- The frame that is opened between `before` and `inner` is still open at the
end of a history. -/
structure OpenFrame (history before inner : List (Action α)) : Prop where
  split : history = before ++ .push :: inner
  isOpen : (height inner 0).isSome

def AllClosed (history : List (Action α)) : Prop :=
  ∀ before inner, ¬ OpenFrame history before inner

/-- Among what happens since a frame was opened, a name is bound behind `body`
while the frame is on top. -/
def BoundAt (inner body : List (Action α)) (name : String) (value : α) : Prop :=
  Balanced body ∧ ∃ position later, inner = body ++ .bind name value position :: later

/-- The latest binding of a name that is made while a frame is on top. -/
def Latest (inner : List (Action α)) (name : String) (value : α) : Prop :=
  ∃ body, BoundAt inner body name value ∧
    ∀ body' value', BoundAt inner body' name value' → body'.length ≤ body.length

/-- The latest binding of a name in the innermost open frame that has one. -/
def Resolves (history : List (Action α)) (name : String) (value : α) : Prop :=
  ∃ before inner, OpenFrame history before inner ∧ Latest inner name value ∧
    ∀ before' inner', OpenFrame inner before' inner' →
      ∀ body value', ¬ BoundAt inner' body name value'

section Height

variable {actions inner before : List (Action α)} {level top : Nat}

theorem height_append (actions later : List (Action α)) (level : Nat) :
    height (actions ++ later) level = (height actions level).bind (height later) := by
  fun_induction height actions level with
  | case1 level => rfl
  | case2 rest level ih => exact ih
  | case3 rest => rfl
  | case4 rest level ih => exact ih
  | case5 name value position rest level ih => exact ih
  | case6 name rest level ih => exact ih

theorem height_add (h : height actions level = some top) (k : Nat) :
    height actions (level + k) = some (top + k) := by
  fun_induction height actions level with
  | case1 level =>
    obtain rfl := Option.some.inj h
    rfl
  | case2 rest level ih =>
    rw [height, Nat.add_right_comm]
    exact ih h
  | case3 rest => cases h
  | case4 rest level ih =>
    rw [Nat.succ_add, height]
    exact ih h
  | case5 name value position rest level ih => exact ih h
  | case6 name rest level ih => exact ih h

theorem isSome_height_of_append {later : List (Action α)}
    (h : (height (actions ++ later) level).isSome) : (height actions level).isSome := by
  rw [height_append] at h
  exact Option.isSome_of_isSome_bind h

theorem height_append_push (hb : height before 0 = some level) (hi : height inner 0 = some top) :
    height (before ++ .push :: inner) 0 = some (top + level + 1) := by
  rw [height_append, hb, Option.bind_some, height, ← Nat.zero_add (level + 1), height_add hi]
  rfl

theorem isSome_height_append_push (hb : (height before 0).isSome) (hi : (height inner 0).isSome) :
    (height (before ++ .push :: inner) 0).isSome := by
  obtain ⟨level, hl⟩ := Option.isSome_iff_exists.mp hb
  obtain ⟨top, ht⟩ := Option.isSome_iff_exists.mp hi
  rw [height_append_push hl ht]
  rfl

theorem Balanced.append {later : List (Action α)} (h : Balanced actions) (hl : Balanced later) :
    Balanced (actions ++ later) := by
  rw [Balanced, height_append, h]
  exact hl

theorem Balanced.block (h : Balanced inner) : Balanced (.push :: inner ++ [.pop]) := by
  have hp : height inner 1 = some 1 := height_add h 1
  rw [Balanced, List.cons_append, height, height_append, hp]
  rfl

theorem not_balanced_of_open (hi : (height inner 0).isSome) :
    ¬ Balanced (before ++ .push :: inner) := by
  intro hb
  unfold Balanced at hb
  obtain ⟨top, ht⟩ := Option.isSome_iff_exists.mp hi
  obtain ⟨level, hl⟩ : ∃ level, height before 0 = some level := by
    apply Option.isSome_iff_exists.mp
    apply isSome_height_of_append
    rw [hb]
    rfl
  rw [height_append_push hl ht] at hb
  cases hb

theorem Balanced.allClosed (h : Balanced actions) : AllClosed actions := by
  rintro before inner ⟨rfl, hi⟩
  exact not_balanced_of_open hi h

end Height

section Splits

variable {before inner before' inner' : List (Action α)}

theorem push_cases (h : before ++ .push :: inner = before' ++ .push :: inner') :
    (before = before' ∧ inner = inner') ∨
      (∃ middle, before' = before ++ .push :: middle ∧ inner = middle ++ .push :: inner') ∨
      ∃ middle, before = before' ++ .push :: middle ∧ inner' = middle ++ .push :: inner := by
  rcases List.append_eq_append_iff.mp h with ⟨_ | ⟨first, middle⟩, rfl, hs⟩ |
    ⟨_ | ⟨first, middle⟩, rfl, hs⟩
  · cases hs
    exact Or.inl ⟨(List.append_nil _).symm, rfl⟩
  · cases hs
    exact Or.inr (Or.inl ⟨middle, rfl, rfl⟩)
  · cases hs
    exact Or.inl ⟨List.append_nil _, rfl⟩
  · cases hs
    exact Or.inr (Or.inr ⟨middle, rfl, rfl⟩)

/-- Where a frame on top is open, what else is open is open around it. -/
theorem OpenFrame.cases_of_balanced (hb : Balanced inner)
    (h : OpenFrame (before ++ .push :: inner) before' inner') :
    (before = before' ∧ inner = inner') ∨
      ∃ middle, OpenFrame before before' middle ∧ inner' = middle ++ .push :: inner := by
  obtain ⟨hs, hi⟩ := h
  rcases push_cases hs with ⟨rfl, rfl⟩ | ⟨middle, -, rfl⟩ | ⟨middle, rfl, rfl⟩
  · exact Or.inl ⟨rfl, rfl⟩
  · exact absurd ⟨rfl, hi⟩ (hb.allClosed middle inner')
  · exact Or.inr ⟨middle, ⟨rfl, isSome_height_of_append hi⟩, rfl⟩

theorem OpenFrame.append_push (h : OpenFrame before before' inner') (hi : (height inner 0).isSome) :
    OpenFrame (before ++ .push :: inner) before' (inner' ++ .push :: inner) := by
  obtain ⟨rfl, ho⟩ := h
  exact ⟨by simp, isSome_height_append_push ho hi⟩

theorem AllClosed.append_singleton {history : List (Action α)} (h : AllClosed history)
    {action : Action α} (ha : action ≠ .push) : AllClosed (history ++ [action]) := by
  rintro before inner ⟨hs, hi⟩
  rcases List.eq_nil_or_concat inner with rfl | ⟨inner, last, rfl⟩
  · obtain ⟨-, hl⟩ := List.append_inj' hs rfl
    exact ha (List.head_eq_of_cons_eq hl)
  · rw [List.concat_eq_append] at hs hi
    rw [← List.cons_append, ← List.append_assoc] at hs
    obtain ⟨rfl, -⟩ := List.append_inj' hs rfl
    exact h before inner ⟨rfl, isSome_height_of_append hi⟩

theorem AllClosed.append_block (h : AllClosed before) (hi : Balanced inner) :
    AllClosed (before ++ (.push :: inner ++ [.pop])) := by
  rintro before' inner' ⟨hs, ho⟩
  rw [List.cons_append] at hs
  rcases push_cases hs with ⟨-, rfl⟩ | ⟨middle, -, hm⟩ | ⟨middle, rfl, rfl⟩
  · rw [height_append, hi] at ho
    cases ho
  · exact hi.allClosed.append_singleton (by simp) middle inner' ⟨hm, ho⟩
  · exact h before' middle ⟨rfl, isSome_height_of_append ho⟩

end Splits

section Bindings

variable {inner middle body : List (Action α)} {name : String} {value : α}

theorem BoundAt.append (h : BoundAt inner body name value) (later : List (Action α)) :
    BoundAt (inner ++ later) body name value := by
  obtain ⟨hb, position, rest, rfl⟩ := h
  exact ⟨hb, position, rest ++ later, by simp⟩

theorem BoundAt.length_lt (h : BoundAt inner body name value) : body.length < inner.length := by
  obtain ⟨-, position, rest, rfl⟩ := h
  simp

theorem BoundAt.of_append {later : List (Action α)}
    (h : BoundAt (inner ++ later) body name value) :
    BoundAt inner body name value ∨ ∃ middle position rest, body = inner ++ middle ∧
      later = middle ++ .bind name value position :: rest := by
  obtain ⟨hb, position, rest, hs⟩ := h
  rcases List.append_eq_append_iff.mp hs with ⟨middle, rfl, hl⟩ | ⟨_ | ⟨first, middle⟩, rfl, hl⟩
  · exact Or.inr ⟨middle, position, rest, rfl, hl⟩
  · exact Or.inr ⟨[], position, rest, by simp, hl.symm⟩
  · cases hl
    exact Or.inl ⟨hb, position, middle, rfl⟩

theorem boundAt_append_push_iff (hi : (height inner 0).isSome) :
    BoundAt (middle ++ .push :: inner) body name value ↔ BoundAt middle body name value := by
  constructor
  · intro h
    rcases h.of_append with hm | ⟨_ | ⟨first, front⟩, position, rest, rfl, hs⟩
    · exact hm
    · cases hs
    · cases hs
      exact absurd h.1 (not_balanced_of_open (isSome_height_of_append hi))
  · intro h
    exact h.append _

theorem boundAt_append_singleton_iff {action : Action α}
    (ha : ∀ position, action ≠ .bind name value position) :
    BoundAt (inner ++ [action]) body name value ↔ BoundAt inner body name value := by
  constructor
  · intro h
    rcases h.of_append with hm | ⟨_ | ⟨first, front⟩, position, rest, rfl, hs⟩
    · exact hm
    · exact absurd (List.head_eq_of_cons_eq hs) (ha position)
    · simp at hs
  · intro h
    exact h.append _

theorem boundAt_append_bind_iff (hi : Balanced inner) {other : String} {given : α}
    {position : Position} :
    BoundAt (inner ++ [.bind other given position]) body name value ↔
      BoundAt inner body name value ∨ body = inner ∧ name = other ∧ value = given := by
  constructor
  · intro h
    rcases h.of_append with hm | ⟨_ | ⟨first, front⟩, _, rest, rfl, hs⟩
    · exact Or.inl hm
    · cases hs
      exact Or.inr ⟨List.append_nil _, rfl, rfl⟩
    · simp at hs
  · rintro (h | ⟨rfl, rfl, rfl⟩)
    · exact h.append _
    · exact ⟨hi, position, [], rfl⟩

theorem latest_congr {inner' : List (Action α)}
    (h : ∀ body value, BoundAt inner body name value ↔ BoundAt inner' body name value) :
    Latest inner name value ↔ Latest inner' name value := by
  unfold Latest
  simp only [h]

theorem Latest.unique {value' : α} (h : Latest inner name value) (h' : Latest inner name value') :
    value = value' := by
  obtain ⟨body, hb, hl⟩ := h
  obtain ⟨body', hb', hl'⟩ := h'
  have hlen : body.length = body'.length := Nat.le_antisymm (hl' _ _ hb) (hl _ _ hb')
  obtain ⟨-, position, rest, rfl⟩ := hb
  obtain ⟨-, position', rest', hs⟩ := hb'
  obtain ⟨-, hr⟩ := List.append_inj hs hlen
  cases hr
  rfl

theorem latest_append_bind_iff (hi : Balanced inner) {other : String} {given : α}
    {position : Position} :
    Latest (inner ++ [.bind other given position]) name value ↔
      name = other ∧ value = given ∨ name ≠ other ∧ Latest inner name value := by
  by_cases hn : name = other
  · subst hn
    have hlast : Latest (inner ++ [.bind name given position]) name given := by
      refine ⟨inner, (boundAt_append_bind_iff hi).mpr (Or.inr ⟨rfl, rfl, rfl⟩), ?_⟩
      intro body' value' h
      rcases (boundAt_append_bind_iff hi).mp h with h | ⟨rfl, -, -⟩
      · exact Nat.le_of_lt h.length_lt
      · exact Nat.le_refl _
    constructor
    · intro h
      exact Or.inl ⟨rfl, h.unique hlast⟩
    · rintro (⟨-, rfl⟩ | ⟨hne, -⟩)
      · exact hlast
      · exact absurd rfl hne
  · have hc (body : List (Action α)) (value : α) :
        BoundAt (inner ++ [.bind other given position]) body name value ↔
          BoundAt inner body name value := by
      apply boundAt_append_singleton_iff
      intro position hb
      cases hb
      exact hn rfl
    rw [latest_congr hc]
    simp [hn]

theorem Resolves.unique {history : List (Action α)} {value' : α} (h : Resolves history name value)
    (h' : Resolves history name value') : value = value' := by
  obtain ⟨before, inner, ⟨rfl, ho⟩, hl, hn⟩ := h
  obtain ⟨before', inner', ⟨hs, ho'⟩, hl', hn'⟩ := h'
  -- Of two different frames the later one has no binding of the name.
  rcases push_cases hs with ⟨rfl, rfl⟩ | ⟨between, -, rfl⟩ | ⟨between, -, rfl⟩
  · exact hl.unique hl'
  · obtain ⟨body, hb, -⟩ := hl'
    exact absurd hb (hn between inner' ⟨rfl, ho'⟩ body value')
  · obtain ⟨body, hb, -⟩ := hl
    exact absurd hb (hn' between inner ⟨rfl, ho⟩ body value)

end Bindings

end Scope

namespace Frame

variable {α : Type} {frame : Frame α} {name other : String} {value given : α}

theorem mem_insert_iff :
    (name, value) ∈ frame.insert other given ↔
      name = other ∧ value = given ∨ name ≠ other ∧ (name, value) ∈ frame := by
  simp only [insert, List.mem_cons, Prod.mk.injEq, List.mem_filter, decide_eq_true_eq]
  exact or_congr_right And.comm

theorem nodup_insert (h : (frame.map Prod.fst).Nodup) :
    ((frame.insert other given).map Prod.fst).Nodup := by
  rw [insert, List.map_cons, List.nodup_cons]
  refine ⟨?_, h.sublist (List.filter_sublist.map Prod.fst)⟩
  simp [List.mem_map, List.mem_filter]

theorem find?_eq_some_iff (h : (frame.map Prod.fst).Nodup) :
    frame.find? name = some value ↔ (name, value) ∈ frame := by
  induction frame with
  | nil => simp [find?]
  | cons entry rest ih =>
    obtain ⟨bound, held⟩ := entry
    rw [List.map_cons, List.nodup_cons] at h
    rw [find?, List.mem_cons, Prod.mk.injEq]
    split
    · next hn =>
      subst hn
      have hr : (name, value) ∉ rest := fun hm => h.1 (List.mem_map.mpr ⟨_, hm, rfl⟩)
      simp [hr, eq_comm]
    · next hn => simp [hn, ih h.2]

end Frame

namespace Scope

variable {α : Type}

/-- A frame has the latest bindings of what happened since it was opened, each
name once. -/
structure Holds (inner : List (Action α)) (frame : Frame α) : Prop where
  nodup : (frame.map Prod.fst).Nodup
  mem_iff : ∀ name value, (name, value) ∈ frame ↔ Latest inner name value
  exists_mem : ∀ body name value, BoundAt inner body name value → ∃ given, (name, given) ∈ frame

section Holds

variable {inner : List (Action α)} {frame : Frame α}

theorem holds_nil : Holds ([] : List (Action α)) [] := by
  have hn (body : List (Action α)) (name : String) (value : α) : ¬ BoundAt [] body name value :=
    fun h => Nat.not_lt_zero _ h.length_lt
  refine ⟨List.nodup_nil, fun name value => ?_, fun body name value h => absurd h (hn _ _ _)⟩
  refine iff_of_false List.not_mem_nil ?_
  rintro ⟨body, hb, -⟩
  exact hn _ _ _ hb

theorem Holds.congr {inner' : List (Action α)} (h : Holds inner frame)
    (hc : ∀ body name value, BoundAt inner' body name value ↔ BoundAt inner body name value) :
    Holds inner' frame := by
  refine ⟨h.nodup, fun name value => ?_, fun body name value hb => ?_⟩
  · rw [h.mem_iff, latest_congr fun body value => hc body name value]
  · exact h.exists_mem body name value ((hc body name value).mp hb)

theorem Holds.bind (h : Holds inner frame) (hi : Balanced inner) (name : String) (value : α)
    (position : Position) :
    Holds (inner ++ [.bind name value position]) (frame.insert name value) := by
  refine ⟨Frame.nodup_insert h.nodup, fun other given => ?_, fun body other given hb => ?_⟩
  · rw [Frame.mem_insert_iff, latest_append_bind_iff hi, h.mem_iff]
  · by_cases hn : other = name
    · exact ⟨value, Frame.mem_insert_iff.mpr (Or.inl ⟨hn, rfl⟩)⟩
    · rcases (boundAt_append_bind_iff hi).mp hb with hb | ⟨-, ho, -⟩
      · obtain ⟨held, hm⟩ := h.exists_mem body other given hb
        exact ⟨held, Frame.mem_insert_iff.mpr (Or.inr ⟨hn, hm⟩)⟩
      · exact absurd ho hn

theorem Holds.not_boundAt (h : Holds inner frame) {name : String} (hf : frame.find? name = none)
    (body : List (Action α)) (value : α) : ¬ BoundAt inner body name value := by
  intro hb
  obtain ⟨given, hm⟩ := h.exists_mem body name value hb
  rw [← Frame.find?_eq_some_iff h.nodup, hf] at hm
  cases hm

end Holds

/-- The frames that are open behind a history, innermost first. -/
inductive Stack : List (Action α) → List (Frame α) → Prop where

  | nil {history : List (Action α)} : AllClosed history → Stack history []

  | cons {before inner : List (Action α)} {frame : Frame α} {outer : List (Frame α)} :
      Stack before outer → Balanced inner → Holds inner frame →
      Stack (before ++ .push :: inner) (frame :: outer)

section Stack

variable {history : List (Action α)} {frames : List (Frame α)}

/-- Closing the frame on top leaves a block behind, in which nothing is bound for
the frame around it. -/
theorem Stack.close {before inner : List (Action α)} (h : Stack before frames)
    (hi : Balanced inner) : Stack (before ++ (.push :: inner ++ [.pop])) frames := by
  cases h with
  | nil hc => exact .nil (hc.append_block hi)
  | @cons before' inner' frame outer hs hb hh =>
    rw [List.append_assoc, List.cons_append]
    refine .cons hs (hb.append hi.block) (hh.congr fun body name value => ?_)
    rw [← List.append_assoc, boundAt_append_singleton_iff (by simp),
      boundAt_append_push_iff (by rw [hi]; rfl)]

/-- Each action takes the open frames to those that are open behind it. -/
theorem Stack.act (h : Stack history frames) (action : Action α) :
    Stack (history ++ [action]) (act ⟨frames⟩ action).frames := by
  cases action with
  | push => exact .cons h rfl holds_nil
  | pop =>
    cases h with
    | nil hc => exact .nil (hc.append_singleton (by simp))
    | cons hs hb hh =>
      rw [List.append_assoc]
      exact hs.close hb
  | bind name value position =>
    cases h with
    | nil hc => exact .nil (hc.append_singleton (by simp))
    | cons hs hb hh =>
      rw [List.append_assoc]
      exact .cons hs (hb.append rfl) (hh.bind hb name value position)
  | resolve name =>
    cases h with
    | nil hc => exact .nil (hc.append_singleton (by simp))
    | cons hs hb hh =>
      rw [List.append_assoc]
      refine .cons hs (hb.append rfl) (hh.congr fun body name value => ?_)
      exact boundAt_append_singleton_iff (by simp)

/-- The frames of a scope are those that are open behind its history. -/
theorem stack_after (history : List (Action α)) : Stack history (after history).frames := by
  induction history using List.reverseRecOn with
  | nil =>
    apply Stack.nil
    rintro before inner ⟨hs, -⟩
    simp at hs
  | append_singleton history action ih =>
    rw [after, List.foldl_append]
    exact ih.act action

theorem Stack.eq_nil_iff (h : Stack history frames) : frames = [] ↔ AllClosed history := by
  cases h with
  | nil hc => exact iff_of_true rfl hc
  | cons hs hb hh =>
    refine iff_of_false (List.cons_ne_nil _ _) fun hc => hc _ _ ⟨rfl, ?_⟩
    rw [hb]
    rfl

theorem Stack.of_head? (h : Stack history frames) {frame : Frame α}
    (hf : frames.head? = some frame) :
    ∃ before inner, history = before ++ .push :: inner ∧ Balanced inner ∧ Holds inner frame := by
  cases h with
  | nil hc => cases hf
  | cons hs hb hh =>
    obtain rfl := Option.some.inj hf
    exact ⟨_, _, rfl, hb, hh⟩

theorem Stack.not_boundAt (h : Stack history frames) {name : String}
    (hf : find? ⟨frames⟩ name = none) {before inner : List (Action α)}
    (ho : OpenFrame history before inner) (body : List (Action α)) (value : α) :
    ¬ BoundAt inner body name value := by
  induction h generalizing before inner with
  | nil hc => exact absurd ho (hc before inner)
  | @cons before' inner' frame outer hs hb hh ih =>
    simp only [find?, List.findSome?_cons] at hf
    cases hn : frame.find? name with
    | some given => simp [hn] at hf
    | none =>
      rw [hn] at hf
      rcases ho.cases_of_balanced hb with ⟨rfl, rfl⟩ | ⟨middle, hm, rfl⟩
      · exact hh.not_boundAt hn body value
      · rw [boundAt_append_push_iff (by rw [hb]; rfl)]
        exact ih hf hm

/-- A value that a lookup finds is the latest in the innermost frame that has one. -/
theorem Stack.resolves (h : Stack history frames) {name : String} {value : α}
    (hf : find? ⟨frames⟩ name = some value) : Resolves history name value := by
  induction h with
  | nil hc => cases hf
  | @cons before inner frame outer hs hb hh ih =>
    have ho : (height inner 0).isSome := by
      rw [hb]
      rfl
    simp only [find?, List.findSome?_cons] at hf
    cases hn : frame.find? name with
    | some given =>
      obtain rfl : given = value := by simpa [hn] using hf
      refine ⟨before, inner, ⟨rfl, ho⟩, ?_, fun before' inner' h' => ?_⟩
      · exact (hh.mem_iff name given).mp ((Frame.find?_eq_some_iff hh.nodup).mp hn)
      · exact absurd h' (hb.allClosed before' inner')
    | none =>
      -- The frame on top does not bind the name, and no frame around it sees what happens on it.
      rw [hn] at hf
      obtain ⟨before', middle, hm, hl, hnone⟩ := ih hf
      refine ⟨before', middle ++ .push :: inner, hm.append_push ho, ?_, fun first last h' => ?_⟩
      · rwa [latest_congr fun body value => boundAt_append_push_iff ho]
      · rcases h'.cases_of_balanced hb with ⟨rfl, rfl⟩ | ⟨between, hbt, rfl⟩
        · exact hh.not_boundAt hn
        · intro body value
          rw [boundAt_append_push_iff ho]
          exact hnone first between hbt body value

end Stack

section Answers

variable {history : List (Action α)}

theorem find?_after_eq_some_iff {name : String} {value : α} :
    (after history).find? name = some value ↔ Resolves history name value := by
  constructor
  · exact (stack_after history).resolves
  · intro h
    cases hf : (after history).find? name with
    | some given => rw [((stack_after history).resolves hf).unique h]
    | none =>
      obtain ⟨before, inner, ho, ⟨body, hb, -⟩, -⟩ := h
      exact absurd hb ((stack_after history).not_boundAt hf ho body value)

theorem find?_after_eq_none_iff {name : String} :
    (after history).find? name = none ↔ ∀ before inner, OpenFrame history before inner →
      ∀ body value, ¬ BoundAt inner body name value := by
  constructor
  · intro hf before inner ho
    exact (stack_after history).not_boundAt hf ho
  · intro h
    rw [Option.eq_none_iff_forall_ne_some]
    intro value hf
    obtain ⟨before, inner, ho, ⟨body, hb, -⟩, -⟩ := (stack_after history).resolves hf
    exact h before inner ho body value hb

theorem bind_eq_error_iff (scope : Scope α) (name : String) (value : α) (position : Position)
    (fault : Fault) :
    scope.bind name value position = .error fault ↔
      scope.frames = [] ∧ fault = ⟨.noScope name, position⟩ := by
  obtain ⟨frames⟩ := scope
  cases frames with
  | nil => simp [bind, eq_comm]
  | cons frame outer => simp [bind]

theorem act_bind_of_closed {scope : Scope α} (h : scope.frames = []) (name : String) (value : α)
    (position : Position) : scope.act (.bind name value position) = scope := by
  have hb := (bind_eq_error_iff scope name value position _).mpr ⟨h, rfl⟩
  rw [act, hb]

/-- As long as a frame stays open, actions leave alone what stands below it. -/
theorem foldl_act_above {actions : List (Action α)} {level top : Nat}
    (h : height actions level = some top) (above below : List (Frame α))
    (hl : above.length = level + 1) :
    ∃ above', above'.length = top + 1 ∧
      actions.foldl act ⟨above ++ below⟩ = ⟨above' ++ below⟩ := by
  fun_induction height actions level generalizing above with
  | case1 level =>
    obtain rfl := Option.some.inj h
    exact ⟨above, hl, rfl⟩
  | case2 later level ih => exact ih h ([] :: above) (congrArg Nat.succ hl)
  | case3 later => cases h
  | case4 later level ih =>
    obtain ⟨frame, above, rfl⟩ := List.exists_cons_of_length_eq_add_one hl
    exact ih h above (Nat.succ.inj hl)
  | case5 name value position later level ih =>
    obtain ⟨frame, above, rfl⟩ := List.exists_cons_of_length_eq_add_one hl
    exact ih h (frame.insert name value :: above) hl
  | case6 name later level ih => exact ih h above hl

theorem after_append_block (history : List (Action α)) {inner : List (Action α)}
    (h : Balanced inner) : after (history ++ (.push :: inner ++ [.pop])) = after history := by
  obtain ⟨above, hl, ha⟩ := foldl_act_above h [[]] (after history).frames rfl
  obtain ⟨frame, rfl⟩ := List.length_eq_one_iff.mp hl
  rw [after, List.foldl_append]
  change (inner ++ [Action.pop]).foldl act ⟨[[]] ++ (after history).frames⟩ = after history
  rw [List.foldl_append, ha]
  rfl

end Answers

/-- The scope behind a history answers as lexical scoping wants. A lookup finds the
latest binding of the name made while the innermost open frame with such a binding
was on top, and nothing if no open frame has one. A binding fails exactly when no
frame is open, and then changes nothing. The frame that a pop closes has the latest
value of each name bound while it was on top, and no other. Balanced actions between
a push and its pop leave the depth and all lookups as they were. -/
theorem lexical_scoping (history : List (Action α)) :
    (∀ name value, (after history).find? name = some value ↔ Resolves history name value) ∧
      (∀ name, (after history).find? name = none ↔ ∀ before inner,
        OpenFrame history before inner → ∀ body value, ¬ BoundAt inner body name value) ∧
      (∀ name value position fault, (after history).bind name value position = .error fault ↔
        AllClosed history ∧ fault = ⟨.noScope name, position⟩) ∧
      (AllClosed history → ∀ name value position,
        after (history ++ [.bind name value position]) = after history) ∧
      ((after history).close.1 = none ↔ AllClosed history) ∧
      (∀ frame, (after history).close.1 = some frame → ∃ before inner,
        history = before ++ .push :: inner ∧ Balanced inner ∧
          after (history ++ [.pop]) = after before ∧ (frame.map Prod.fst).Nodup ∧
          ∀ name value, (name, value) ∈ frame ↔ Latest inner name value) ∧
      ∀ inner, Balanced inner →
        (after (history ++ (.push :: inner ++ [.pop]))).depth = (after history).depth ∧
          ∀ name, (after (history ++ (.push :: inner ++ [.pop]))).find? name =
            (after history).find? name := by
  have hs := stack_after history
  refine ⟨fun _ _ => find?_after_eq_some_iff, fun _ => find?_after_eq_none_iff, ?_, ?_, ?_, ?_, ?_⟩
  · intro name value position fault
    rw [bind_eq_error_iff, hs.eq_nil_iff]
  · intro hc name value position
    rw [after, List.foldl_append]
    exact act_bind_of_closed (hs.eq_nil_iff.mpr hc) name value position
  · rw [close_eq, List.head?_eq_none_iff, hs.eq_nil_iff]
  · intro frame hf
    rw [close_eq] at hf
    obtain ⟨before, inner, rfl, hb, hh⟩ := hs.of_head? hf
    refine ⟨before, inner, rfl, hb, ?_, hh.nodup, hh.mem_iff⟩
    rw [List.append_assoc]
    exact after_append_block before hb
  · intro inner hi
    have he := after_append_block history hi
    exact ⟨congrArg depth he, fun name => congrArg (find? · name) he⟩

end Scope

end Stylesheet
