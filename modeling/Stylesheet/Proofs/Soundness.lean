import Stylesheet.Proofs.Declarations
import Stylesheet.Proofs.WellFormed

/-! # Values and types along a course

The course of the evaluation of a well-formed document is followed with the
types that checking gave to the variables. Values and types agree at each name
that is not stale. They agree at all names as long as every binding has a value,
and then an expression has a value of its type unless it is stuck.
-/

namespace Stylesheet

def Conforms (property : String) (value : Literal) : Prop :=
  ∃ allowed ∈ propertyTypes? property, value.type ∈ allowed

instance (property : String) (value : Literal) : Decidable (Conforms property value) :=
  inferInstanceAs (Decidable (∃ allowed ∈ propertyTypes? property, value.type ∈ allowed))

namespace Context

/-- Values have the types of an environment, at each name that is not stale. -/
def Agrees (context : Context) (types : Env ValueType) : Prop :=
  ∀ name, context.stale name = false → (context.values name).map Literal.type = types name

/-- Values have the types of an environment, at each name. -/
def Tracks (context : Context) (types : Env ValueType) : Prop :=
  ∀ name, (context.values name).map Literal.type = types name

variable {context : Context} {types : Env ValueType}

theorem agrees_start : Context.start.Agrees Env.empty := fun _ _ => rfl

theorem tracks_start : Context.start.Tracks Env.empty := fun _ => rfl

theorem Agrees.sound (h : context.Agrees types) {e : Expr} {type : ValueType}
    (ht : e.HasType types type) (hn : context.taints e = false) : e.Sound context.values type := by
  refine ht.sound fun name hm => h name ?_
  simpa using List.any_eq_false.mp hn name hm

theorem Agrees.binding (h : context.Agrees types) {value : Expr} {type : ValueType}
    (ht : value.HasType types type) (name : String) (span : Span) :
    (context.behind (.binding name value span)).Agrees
      (Function.update types name (some type)) := by
  intro other hs
  simp only [behind, Function.update_apply, Env.behind] at hs ⊢
  by_cases ho : other = name
  · -- The name itself is fresh only if its expression has a value and no stale name.
    subst ho
    rw [if_pos rfl, Bool.or_eq_false_iff] at hs
    obtain ⟨hv, hn⟩ := hs
    cases he : value.valueIn context.values with
    | none => simp [he] at hv
    | some literal => simp [(h.sound ht hn).1 literal he]
  · rw [if_neg ho] at hs ⊢
    cases value.valueIn context.values with
    | none => exact h other hs
    | some literal => simpa [Function.update_of_ne ho] using h other hs

theorem Tracks.sound (h : context.Tracks types) {e : Expr} {type : ValueType}
    (ht : e.HasType types type) : e.Sound context.values type :=
  ht.sound fun name _ => h name

theorem Tracks.binding (h : context.Tracks types) {value : Expr} {type : ValueType}
    (ht : value.HasType types type) (hv : value.valueIn context.values ≠ none) (name : String)
    (span : Span) :
    (context.behind (.binding name value span)).Tracks
      (Function.update types name (some type)) := by
  intro other
  obtain ⟨literal, he⟩ := Option.ne_none_iff_exists'.mp hv
  simp only [behind, Env.behind, he, Function.update_apply]
  split_ifs
  · rw [Option.map_some, (h.sound ht).1 literal he]
  · exact h other

end Context

/-- What is met stands where an invariant holds of the context and the types in
scope, and it is well typed there. -/
def Visit.At (Inv : Context → Env ValueType → Prop) : Visit → Prop
  | declares context property value _ => ∃ types, Inv context types ∧
      ∃ type allowed, value.HasType types type ∧ propertyTypes? property = some allowed ∧
        type ∈ allowed
  | binds context _ value => ∃ types, Inv context types ∧ ∃ type, value.HasType types type
  | decides context condition => ∃ types, Inv context types ∧ condition.Decides types
  | drops _ => True

/-- Each well-typed binding on a course keeps an invariant. -/
def Kept (course : List Visit) (Inv : Context → Env ValueType → Prop) : Prop :=
  ∀ ⦃context types name value type⦄, .binds context name value ∈ course → Inv context types →
    value.HasType types type → ∀ span,
      Inv (context.behind (.binding name value span)) (Function.update types name (some type))

theorem kept_agrees (course : List Visit) : Kept course Context.Agrees :=
  fun _ _ name _ _ _ h ht span => h.binding ht name span

theorem kept_tracks {course : List Visit}
    (hb : ∀ ⦃context types name value type⦄, .binds context name value ∈ course →
      context.Tracks types → value.HasType types type → value.valueIn context.values ≠ none) :
    Kept course Context.Tracks :=
  fun _ _ name _ _ hm h ht span => h.binding ht (hb hm h ht) name span

section Invariant

variable {Inv : Context → Env ValueType → Prop} {course : List Visit}

/-- An invariant that is kept along a course holds at each point of it that is in
a well-formed block. -/
theorem visitBody_at (hk : Kept course Inv) {kind : BlockKind} {types : Env ValueType}
    {items : List Node} (h : WellFormedBody kind types items) {context : Context}
    (hi : Inv context types) (hsub : context.visitBody items ⊆ course) :
    ∀ visit ∈ context.visitBody items, visit.At Inv := by
  induction h generalizing context with
  | nil => simp [Context.visitBody]
  | declaration span ht ha hm _ ih =>
    rw [Context.visitBody, List.append_subset] at hsub
    rw [Context.visitBody, List.forall_mem_append]
    refine ⟨?_, ih hi hsub.2⟩
    unfold Context.visitItem
    exact List.forall_mem_singleton.mpr ⟨_, hi, _, _, ht, ha, hm⟩
  | binding span ht _ ih =>
    rw [Context.visitBody, List.append_subset] at hsub
    rw [Context.visitBody, List.forall_mem_append]
    -- The binding is itself on the course, so the invariant holds behind it.
    have hb := hsub.1 (List.mem_singleton.mpr rfl)
    refine ⟨?_, ih (hk hb hi ht span) hsub.2⟩
    unfold Context.visitItem
    exact List.forall_mem_singleton.mpr ⟨_, hi, _, ht⟩
  | @conditional kind types condition body otherwise items span hc _ _ _ ihb iho ihi =>
    rw [Context.visitBody, List.append_subset] at hsub
    rw [Context.visitBody, List.forall_mem_append]
    refine ⟨?_, ihi hi hsub.2⟩
    obtain ⟨later, he, hl⟩ := context.visitItem_conditional condition body otherwise span
    rw [he] at hsub ⊢
    have hlater := (List.cons_subset.mp hsub.1).2
    refine List.forall_mem_cons.mpr ⟨⟨types, hi, hc⟩, ?_⟩
    -- A branch starts where the conditional stands, with the same context and types.
    rcases hl with rfl | rfl | ⟨branch, hb, rfl⟩
    · simp
    · exact ihb hi hlater
    · exact iho branch hb hi hlater
  | alternative _ _ _ ih =>
    rw [Context.visitBody, List.append_subset] at hsub
    rw [Context.visitBody, List.forall_mem_append]
    refine ⟨?_, ih hi hsub.2⟩
    unfold Context.visitItem
    exact List.forall_mem_singleton.mpr trivial

theorem visitChildren_at (hk : Kept course Inv) {types : Env ValueType} {children : List Node}
    (h : WellFormedChildren types children) {context : Context} (hi : Inv context types)
    (hsub : context.visitChildren children ⊆ course) :
    ∀ visit ∈ context.visitChildren children, visit.At Inv := by
  induction h generalizing context with
  | nil => simp [Context.visitChildren]
  | binding span ht _ ih =>
    rw [Context.visitChildren, List.cons_subset] at hsub
    rw [Context.visitChildren, List.forall_mem_cons]
    exact ⟨⟨_, hi, _, ht⟩, ih (hk hsub.1 hi ht span) hsub.2⟩
  | rule selectors span hb _ ih =>
    rw [Context.visitChildren, List.append_subset] at hsub
    rw [Context.visitChildren, List.forall_mem_append]
    exact ⟨visitBody_at hk hb hi hsub.1, ih hi hsub.2⟩

end Invariant

/-- An invariant that holds at the start of a well-formed document and behind
each binding on its course holds all along the course. -/
theorem Node.WellFormed.course_at {root : Node} (h : root.WellFormed)
    {Inv : Context → Env ValueType → Prop} (hstart : Inv Context.start Env.empty)
    (hk : Kept root.course Inv) : ∀ visit ∈ root.course, visit.At Inv := by
  cases h with
  | document span hc => exact visitChildren_at hk hc hstart (List.Subset.refl _)

end Stylesheet
