import Stylesheet.Proofs.Recompilation

/-! # Nodes out of place

Checking takes an alternative as an item of the body of a conditional, where
evaluation has no use for it. All other nodes that an evaluation of an accepted
document meets are in place. A document that was read from a source has no such
alternative, so nothing in it is dropped.
-/

namespace Stylesheet

def Event.isDropped : Event → Bool
  | droppedNode _ => true
  | _ => false

theorem Event.filter_isDropped_eq_nil_iff {log : List Event} :
    log.filter isDropped = [] ↔ ∀ noun, .droppedNode noun ∉ log := by
  rw [List.filter_eq_nil_iff]
  constructor
  · intro h noun hm
    exact h _ hm rfl
  · intro h event hm hd
    cases event with
    | droppedNode noun => exact h noun hm
    | _ => cases hd

def Node.isAlternative : Node → Bool
  | alternative _ => true
  | _ => false

namespace Lexical

mutual

/-- The items that an evaluation meets from an item of a block on: the item
itself, and those of the branch that is chosen. Each comes with the kind of the
block it stands in. -/
def metItem (env : Env Literal) (kind : BlockKind) : Node → List (BlockKind × Node)
  | .conditional condition body otherwise span =>
    (kind, .conditional condition body otherwise span) ::
      match condition.valueIn env with
      | some (.boolean true) => metBody env .conditional body
      | some (.boolean false) =>
        match otherwise with
        | none => []
        | some ⟨items, _⟩ => metBody env .alternative items
      | _ => []
  | item => [(kind, item)]

def metBody (env : Env Literal) (kind : BlockKind) : List Node → List (BlockKind × Node)
  | [] => []
  | item :: items => metItem env kind item ++ metBody (env.behind item) kind items

end

def metChildren (env : Env Literal) : List Node → List (BlockKind × Node)
  | [] => []
  | .rule _ body _ :: children => metBody env .rule body ++ metChildren env children
  | child :: children => metChildren (env.behind child) children

theorem metItem_conditional (env : Env Literal) (kind : BlockKind) (condition : Expr)
    (body : List Node) (otherwise : Option (Block Node)) (span : Span) :
    ∃ later, metItem env kind (.conditional condition body otherwise span) =
        (kind, .conditional condition body otherwise span) :: later ∧
      (later = [] ∨ later = metBody env .conditional body ∨
        ∃ branch, otherwise = some branch ∧ later = metBody env .alternative branch.items) := by
  unfold metItem
  refine ⟨_, rfl, ?_⟩
  split
  · exact Or.inr (Or.inl rfl)
  · cases otherwise with
    | none => exact Or.inl rfl
    | some branch => exact Or.inr (Or.inr ⟨branch, rfl, rfl⟩)
  · exact Or.inl rfl

end Lexical

/-- An alternative that stands as an item in the body of a conditional. -/
def isStray (met : BlockKind × Node) : Bool := met.1 = .conditional && met.2.isAlternative

/-- The alternatives that an evaluation meets as items in the body of a
conditional. -/
def Node.strays : Node → List Node
  | document children _ => ((Lexical.metChildren Env.empty children).filter isStray).map Prod.snd
  | _ => []

namespace Visit

def dropped? : Visit → Option Event
  | drops noun => some (.droppedNode noun)
  | _ => none

theorem filter_event? (visit : Visit) : visit.event?.filter Event.isDropped = visit.dropped? := by
  cases visit with
  | declares context property value span =>
    rw [event?]
    split <;> rfl
  | binds context name value =>
    rw [event?]
    split <;> rfl
  | decides context condition =>
    rw [event?]
    split <;> rfl
  | drops noun => rfl

theorem filter_events (visits : List Visit) :
    (visits.filterMap event?).filter Event.isDropped = visits.filterMap dropped? := by
  rw [List.filter_filterMap, funext filter_event?]

end Visit

def dropEvent (met : BlockKind × Node) : Event := .droppedNode met.2.noun

section Dropped

variable {kind : BlockKind} {context : Context} {item : Node} {items : List Node}

theorem dropped_cons
    (hi : (context.visitItem item).filterMap Visit.dropped? =
      ((Lexical.metItem context.values kind item).filter isStray).map dropEvent)
    (hl : ((context.behind item).visitBody items).filterMap Visit.dropped? =
      ((Lexical.metBody (context.behind item).values kind items).filter isStray).map dropEvent) :
    (context.visitBody (item :: items)).filterMap Visit.dropped? =
      ((Lexical.metBody context.values kind (item :: items)).filter isStray).map dropEvent := by
  rw [Context.visitBody, List.filterMap_append, hi, hl, Lexical.metBody, List.filter_append,
    List.map_append, Context.values_behind]

/-- In a well-formed block the strays are dropped and nothing else is. -/
theorem dropped_body {types : Env ValueType} (h : WellFormedBody kind types items) :
    (context.visitBody items).filterMap Visit.dropped? =
      ((Lexical.metBody context.values kind items).filter isStray).map dropEvent := by
  induction h generalizing context with
  | nil => rfl
  | declaration _ _ _ _ _ ih | binding _ _ _ ih =>
    refine dropped_cons ?_ ih
    unfold Context.visitItem Lexical.metItem
    simp [isStray, Node.isAlternative, Visit.dropped?]
  | @conditional _ _ condition _ otherwise _ _ _ _ _ _ ihb iho ih =>
    refine dropped_cons ?_ ih
    unfold Context.visitItem Lexical.metItem
    rw [List.filterMap_cons_none rfl,
      List.filter_cons_of_neg (by simp [isStray, Node.isAlternative])]
    -- Both follow the branch that the condition chooses.
    rcases condition.valueIn context.values with _ | text | ⟨n, d⟩ | _ | _
    · rfl
    · rfl
    · rfl
    · cases otherwise with
      | none => rfl
      | some branch => exact iho branch rfl
    · exact ihb
  | alternative _ _ _ ih =>
    refine dropped_cons ?_ ih
    unfold Context.visitItem Lexical.metItem
    rfl

theorem dropped_children {types : Env ValueType} {children : List Node}
    (h : WellFormedChildren types children) :
    (context.visitChildren children).filterMap Visit.dropped? =
      ((Lexical.metChildren context.values children).filter isStray).map dropEvent := by
  induction h generalizing context with
  | nil => rfl
  | @binding _ name value _ _ span _ _ ih =>
    rw [Context.visitChildren, List.filterMap_cons_none rfl, ih, Lexical.metChildren,
      Context.values_behind]
    exact fun _ _ _ h => by cases h
  | rule _ _ hb _ ih =>
    rw [Context.visitChildren, List.filterMap_append, dropped_body hb, ih, Lexical.metChildren,
      List.filter_append, List.map_append]

end Dropped

namespace LexedItems

variable {items : List Node} {env : Env Literal}

theorem strays_body {kind : BlockKind} (h : LexedItems items) :
    (Lexical.metBody env kind items).filter isStray = [] := by
  induction h generalizing env kind with
  | nil => rfl
  | binding _ _ ih | declaration _ _ ih | rule _ _ _ _ _ ih =>
    rw [Lexical.metBody, List.filter_append, ih]
    simp [Lexical.metItem, isStray, Node.isAlternative]
  | conditional _ _ _ ihb iho ih =>
    obtain ⟨later, hi, hl⟩ := Lexical.metItem_conditional env kind _ _ _ _
    rw [Lexical.metBody, List.filter_append, ih, List.append_nil, hi,
      List.filter_cons_of_neg (by simp [isStray, Node.isAlternative])]
    obtain rfl | rfl | ⟨branch, ho, rfl⟩ := hl
    · rfl
    · exact ihb
    · exact iho branch ho

theorem strays_children (h : LexedItems items) :
    (Lexical.metChildren env items).filter isStray = [] := by
  induction h generalizing env with
  | nil => rfl
  | rule _ _ hb _ _ ih =>
    rw [Lexical.metChildren, List.filter_append, hb.strays_body, ih, List.append_nil]
  | binding _ _ ih | declaration _ _ ih | conditional _ _ _ _ _ ih => exact ih

end LexedItems

/-- A document that was read from a source has no strays: an alternative is read
only with the conditional it belongs to. -/
theorem strays_of_parse {file source : String} {root : Node} (h : parse file source = .ok root) :
    root.strays = [] := by
  obtain ⟨children, span, rfl, hl⟩ := lexedItems_of_parse h
  rw [Node.strays, hl.strays_children, List.map_nil]

theorem dropped_of_wellFormed {root : Node} (h : root.WellFormed) :
    (root.course.filterMap Visit.event?).filter Event.isDropped =
      (root.strays.map Node.noun).map .droppedNode := by
  obtain ⟨span, hc⟩ := h
  rw [Visit.filter_events, Node.course, dropped_children hc, Node.strays, List.map_map,
    List.map_map]
  rfl

/-- Evaluating an accepted document drops the alternatives that it meets as items
in the body of a conditional, in their order, and no other node. So a document
loses nothing as misplaced exactly when it has no such alternative, as is the
case for all documents that were read from a source. -/
theorem accepted_drops_strays {root : Node} (h : check root = .ok []) :
    ∃ evaluated log, evaluate root = (.ok evaluated, log) ∧
      log.filter Event.isDropped = (root.strays.map Node.noun).map .droppedNode ∧
      ((∀ noun, .droppedNode noun ∉ log) ↔ root.strays = []) ∧
      ∀ file source, parse file source = .ok root → root.strays = [] := by
  have hw := wellFormed_of_check h
  obtain ⟨evaluated, hr⟩ := hw.readOff
  have hd := dropped_of_wellFormed hw
  refine ⟨evaluated, _, hr.evaluate_eq, hd, ?_, fun file source => strays_of_parse⟩
  rw [← Event.filter_isDropped_eq_nil_iff, hd, List.map_eq_nil_iff, List.map_eq_nil_iff]

theorem accepted_drops_strays_branch :
    ∃ root evaluated log, check root = .ok [] ∧ evaluate root = (.ok evaluated, log) ∧
      root.strays.map Node.noun = ["alternative"] ∧
      log.filter Event.isDropped = [.droppedNode "alternative"] := by
  -- Only the first of the two alternatives out of place is met.
  obtain ⟨root, hc, hs⟩ : ∃ root, [] ∈ (check root).toOption ∧
      root.strays.map Node.noun = ["alternative"] :=
    ⟨.document [
      .binding "T" (.literal (.boolean true) .unknown) .unknown,
      .rule [⟨"p", .unknown⟩] [
        .conditional (.reference "T" .unknown)
          [.alternative ⟨[], .unknown⟩, .binding "T" (.literal (.boolean false) .unknown) .unknown,
            .conditional (.reference "T" .unknown) [.alternative ⟨[], .unknown⟩] none .unknown]
          none .unknown] .unknown] .unknown, by decide +kernel⟩
  rw [mem_toOption] at hc
  obtain ⟨evaluated, log, he, hd, -⟩ := accepted_drops_strays hc
  refine ⟨root, evaluated, log, hc, he, hs, ?_⟩
  rw [hd, hs]
  rfl

/-- An alternative as the only item in the body of a conditional is accepted, and
then dropped. -/
theorem accepted_drops_alternative :
    let root := Node.document [.rule [⟨"p", .unknown⟩]
      [.conditional (.literal (.boolean true) .unknown) [.alternative ⟨[], .unknown⟩] none .unknown]
      .unknown] .unknown
    check root = .ok [] ∧ (evaluate root).2 = [.droppedNode "alternative"] :=
  ⟨mem_toOption.mp (by decide +kernel), by decide +kernel⟩

end Stylesheet
