import Stylesheet.Proofs.Reports

/-! # A check step by step

Which steps a check takes does not depend on the types it finds. So a tree is compiled
to a straight list of instructions, and the states of the check are those between two
instructions. The machine that runs them also keeps where each bound expression stands
and which bindings were looked up. Without that it computes what the check computes.
-/

namespace Stylesheet

namespace Frame

variable {α β : Type}

def mapValues (f : α → β) (frame : Frame α) : Frame β := frame.map fun entry => (entry.1, f entry.2)

theorem find?_mapValues (f : α → β) (frame : Frame α) (name : String) :
    (frame.mapValues f).find? name = (frame.find? name).map f := by
  induction frame with
  | nil => rfl
  | cons entry rest ih =>
    simp only [mapValues, List.map_cons, find?]
    split
    · rfl
    · exact ih

theorem mapValues_insert (f : α → β) (frame : Frame α) (name : String) (value : α) :
    (frame.insert name value).mapValues f = (frame.mapValues f).insert name (f value) := by
  simp [mapValues, insert, List.filter_map, Function.comp_def]

end Frame

namespace Scope

variable {α β : Type}

def mapValues (f : α → β) (scope : Scope α) : Scope β := ⟨scope.frames.map (Frame.mapValues f)⟩

theorem find?_mapValues (f : α → β) (scope : Scope α) (name : String) :
    (scope.mapValues f).find? name = (scope.find? name).map f := by
  obtain ⟨frames⟩ := scope
  induction frames with
  | nil => rfl
  | cons frame outer ih =>
    simp only [find?, mapValues, List.map_cons, List.findSome?_cons, Frame.find?_mapValues] at ih ⊢
    cases frame.find? name with
    | none => exact ih
    | some value => rfl

theorem isEmpty_congr {scope : Scope α} {other : Scope β} (h : scope.depth = other.depth) :
    scope.isEmpty = other.isEmpty := by
  obtain ⟨frames⟩ := scope
  obtain ⟨others⟩ := other
  cases frames <;> cases others <;> simp_all [depth, isEmpty]

theorem depth_insert {scope : Scope α} (h : scope.isEmpty = false) (name : String) (value : α) :
    (scope.insert name value).depth = scope.depth := by
  obtain ⟨frames⟩ := scope
  cases frames with
  | nil => cases h
  | cons frame outer => rfl

theorem isEmpty_mapValues (f : α → β) (scope : Scope α) :
    (scope.mapValues f).isEmpty = scope.isEmpty :=
  isEmpty_congr (List.length_map _)

theorem mapValues_pop (f : α → β) (scope : Scope α) :
    scope.pop.mapValues f = (scope.mapValues f).pop := by
  simp [mapValues, pop_eq, List.map_tail]

theorem mapValues_insert (f : α → β) (scope : Scope α) (name : String) (value : α) :
    (scope.insert name value).mapValues f = (scope.mapValues f).insert name (f value) := by
  obtain ⟨frames⟩ := scope
  cases frames with
  | nil => rfl
  | cons frame outer =>
    simp [mapValues, insert, innermost?, close, Frame.mapValues_insert]

end Scope

namespace Stepwise

/-- What a name is bound to: the type of an expression, and the address where that
expression stands. -/
structure Binder where
  type : Option ValueType
  origin : TreePath

inductive Instruction where
  | enter
  | leave
  | report (diagnostic : Diagnostic)
  | condition (path : TreePath) (e : Expr)
  /-- Return the type of a literal. -/
  | literal (path : TreePath) (type : ValueType)
  /-- Return the type of a variable. -/
  | lookup (path : TreePath) (name : String) (span : Span)
  /-- Return no type for an operation with an operand that it does not take. -/
  | refuse (path : TreePath) (diagnostic : Diagnostic)
  /-- Return the type of an operation whose operands have just got theirs. -/
  | operate (path : TreePath) (operator : Operator) (span : Span)
  /-- Bind a name to the type that has just been returned for its value. -/
  | bind (path : TreePath) (name : String) (position : Position)
  /-- Compare the type that has just been returned with what a property takes. -/
  | declare (path : TreePath) (property : String) (span : Span)

structure Machine where
  scope : Scope Binder
  reports : List Diagnostic
  /-- The types that have been returned and wait to be used, the last one first, each
  with the address of its expression. -/
  returned : List (TreePath × Option ValueType)
  /-- The addresses of the references that have been resolved, each with that of the
  expression it was bound to. -/
  lookups : List (TreePath × TreePath)

namespace Machine

def start : Machine := ⟨.empty, [], [], []⟩

def types (m : Machine) : TypeScope := m.scope.mapValues Binder.type

def state (m : Machine) : Checking := ⟨m.types, m.reports⟩

def report (m : Machine) (diagnostics : List Diagnostic) : Machine :=
  { m with reports := m.reports ++ diagnostics }

def give (m : Machine) (path : TreePath) (type : Option ValueType) : Machine :=
  { m with returned := (path, type) :: m.returned }

end Machine

/-- One step. There is none where the types to be used have not been returned, or where
a name is bound with no frame open. -/
def step (m : Machine) : Instruction → Option Machine
  | .enter => some { m with scope := m.scope.push }
  | .leave => some { m with scope := m.scope.pop }
  | .report diagnostic => some (m.report [diagnostic])
  | .condition path e => some (m.report (e.inferCondition m.types path))
  | .literal path type => some (m.give path (some type))
  | .lookup path name span =>
    let (type, reports) := Expr.referenceType m.types path name span
    let found := (m.scope.find? name).toList.map fun binder => (path, binder.origin)
    some { (m.report reports).give path type with lookups := m.lookups ++ found }
  | .refuse path diagnostic => some ((m.report [diagnostic]).give path none)
  | .operate path operator span =>
    match m.returned with
    | (right, rightType) :: (left, leftType) :: returned =>
      if left = path.child 0 ∧ right = path.child 1 then
        match Expr.operationType operator leftType rightType with
        | .ok type => some { m with returned := (path, type) :: returned }
        | .error message =>
          some { m.report [⟨path, span, message⟩] with returned := (path, none) :: returned }
      else none
    | _ => none
  | .bind path name position =>
    match m.returned with
    | (origin, type) :: returned =>
      if origin = path.child 0 then
        match m.scope.bind name ⟨type, origin⟩ position with
        | .ok scope => some { m with scope, returned }
        | .error _ => none
      else none
    | [] => none
  | .declare path property span =>
    match m.returned with
    | (_, type) :: returned =>
      let messages := (type.bind (CheckM.declarationProblem? property)).toList
      some { m.report (messages.map fun message => ⟨path, span, message⟩) with returned }
    | [] => none

def run (m : Machine) (code : List Instruction) : Option Machine := code.foldlM step m

def typing (path : TreePath) : Expr → List Instruction
  | .literal value _ => [.literal path value.type]
  | .reference name span => [.lookup path name span]
  | .operation operator left right span =>
    if left.isPlainLiteral then [.refuse path (Expr.plainOperand (path.child 0) left)]
    else if right.isPlainLiteral then [.refuse path (Expr.plainOperand (path.child 1) right)]
    else typing (path.child 0) left ++ typing (path.child 1) right ++
      [.operate path operator span]

def binding (path : TreePath) (name : String) (value : Expr) (span : Span) : List Instruction :=
  typing (path.child 0) value ++ [.bind path name span.start]

def framed (code : List Instruction) : List Instruction := .enter :: code ++ [.leave]

mutual

def item (kind : BlockKind) (path : TreePath) : Node → List Instruction
  | .declaration property value span =>
    typing (path.child 0) value ++ [.declare path property span]
  | .binding name value span => binding path name value span
  | .conditional condition items otherwise _ =>
    framed (.condition (path.child 0) condition :: body .conditional path 1 items) ++
      match otherwise with
      | none => []
      | some ⟨others, _⟩ => framed (body .alternative (path.child (1 + items.length)) 0 others)
  | .alternative ⟨items, span⟩ =>
    if kind = .conditional then framed (body .alternative path 0 items)
    else [.report ⟨path, span, kind.refusal⟩]
  | .rule _ _ span => [.report ⟨path, span, "nesting of rules is not supported"⟩]
  | .document _ span => [.report ⟨path, span, kind.refusal⟩]

def body (kind : BlockKind) (path : TreePath) (index : Nat) : List Node → List Instruction
  | [] => []
  | first :: later => item kind (path.child index) first ++ body kind path (index + 1) later

end

def child (path : TreePath) : Node → List Instruction
  | .binding name value span => binding path name value span
  | .rule _ items _ => framed (body .rule path 0 items)
  | other =>
    [.report ⟨path, other.span, "only variable bindings and rules allowed at document level"⟩]

def children (index : Nat) : List Node → List Instruction
  | [] => []
  | first :: later => child (TreePath.root.child index) first ++ children (index + 1) later

def program (nodes : List Node) : List Instruction := framed (children 0 nodes)

theorem run_append (m : Machine) (code later : List Instruction) :
    run m (code ++ later) = (run m code).bind fun m' => run m' later :=
  List.foldlM_append

theorem run_cons (m : Machine) (first : Instruction) (later : List Instruction) :
    run m (first :: later) = (step m first).bind fun m' => run m' later :=
  List.foldlM_cons

theorem run_singleton (m : Machine) (instruction : Instruction) :
    run m [instruction] = step m instruction := by
  rw [run_cons]
  cases step m instruction <;> rfl

theorem run_typing (m : Machine) (path : TreePath) (e : Expr) :
    ∃ lookups, run m (typing path e) = some
      { (m.report (e.infer m.types path).2).give path (e.infer m.types path).1 with lookups } := by
  induction e generalizing m path with
  | literal value span =>
    refine ⟨m.lookups, ?_⟩
    simp [typing, run_singleton, step, Expr.infer, Machine.report, Machine.give]
  | reference name span => exact ⟨_, run_singleton ..⟩
  | operation operator left right span ihl ihr =>
    unfold typing Expr.infer
    split_ifs
    · exact ⟨_, run_singleton ..⟩
    · exact ⟨_, run_singleton ..⟩
    · obtain ⟨lookups, hl⟩ := ihl m (path.child 0)
      obtain ⟨lookups', hr⟩ := ihr _ (path.child 1)
      refine ⟨lookups', ?_⟩
      -- The left operand leaves the scope alone, so the right one is typed in the same scope.
      rw [List.append_assoc, run_append, hl, Option.bind_some, run_append, hr, Option.bind_some,
        run_singleton]
      simp only [step, Machine.types, Machine.report, Machine.give, and_self, if_true]
      cases Expr.operationType operator
        (left.infer (m.scope.mapValues Binder.type) (path.child 0)).1
        (right.infer (m.scope.mapValues Binder.type) (path.child 1)).1 with
      | ok type => simp only [List.append_assoc]
      | error message => simp only [List.append_assoc]

/-- The code takes the machine through what a part of the check does, and leaves what
was returned before and the number of open frames as they are. -/
def MirrorsAt (m : Machine) (code : List Instruction) (walk : CheckM Unit) : Prop :=
  ∃ m', run m code = some m' ∧ walk m.state = .ok () m'.state ∧
    m'.returned = m.returned ∧ m'.scope.depth = m.scope.depth

/-- The code does what a part of the check does wherever a frame is open. -/
def Mirrors (code : List Instruction) (walk : CheckM Unit) : Prop :=
  ∀ m : Machine, m.scope.isEmpty = false → MirrorsAt m code walk

section Mirrors

variable {code later : List Instruction} {walk next : CheckM Unit}

theorem mirrors_nil : Mirrors [] (pure ()) := fun m _ => ⟨m, rfl, rfl, rfl, rfl⟩

theorem Mirrors.append (h : Mirrors code walk) (h' : Mirrors later next) :
    Mirrors (code ++ later) (walk >>= fun _ => next) := by
  intro m hm
  obtain ⟨between, hr, hw, hb, hd⟩ := h m hm
  obtain ⟨m', hr', hw', hb', hd'⟩ := h' between (by rw [Scope.isEmpty_congr hd, hm])
  refine ⟨m', ?_, ?_, hb'.trans hb, hd'.trans hd⟩
  · rw [run_append, hr, Option.bind_some, hr']
  · rw [bind_of_ok hw, hw']

theorem Mirrors.framed (h : Mirrors code walk) (m : Machine) :
    MirrorsAt m (framed code) (CheckM.inFrame walk) := by
  obtain ⟨m', hr, hw, hb, hd⟩ := h { m with scope := m.scope.push } rfl
  refine ⟨{ m' with scope := m'.scope.pop }, ?_, ?_, hb, ?_⟩
  · rw [Stepwise.framed, List.cons_append, run_cons, step, Option.bind_some, run_append, hr,
      Option.bind_some, run_singleton, step]
  · simp only [Machine.state, Machine.types, Scope.mapValues_pop]
    exact CheckM.inFrame_run hw
  · rw [Scope.pop_eq]
    exact (List.length_tail).trans (congrArg (· - 1) hd)

theorem mirrors_report (diagnostic : Diagnostic) :
    Mirrors [.report diagnostic] (CheckM.report [diagnostic]) :=
  fun m _ => ⟨m.report [diagnostic], run_singleton .., rfl, rfl, rfl⟩

theorem mirrors_condition (path : TreePath) (e : Expr) :
    Mirrors [.condition path e] (do CheckM.report (e.inferCondition (← get).scope path)) :=
  fun m _ => ⟨m.report (e.inferCondition m.types path), run_singleton .., rfl, rfl, rfl⟩

theorem mirrors_binding (path : TreePath) (name : String) (value : Expr) (span : Span) :
    Mirrors (binding path name value span) (CheckM.checkBinding path name value span) := by
  intro m hm
  obtain ⟨lookups, hr⟩ := run_typing m (path.child 0) value
  refine ⟨{ m.report (value.infer m.types (path.child 0)).2 with
    scope := m.scope.insert name ⟨(value.infer m.types (path.child 0)).1, path.child 0⟩, lookups },
    ?_, ?_, rfl, Scope.depth_insert hm ..⟩
  · rw [binding, run_append, hr, Option.bind_some, run_singleton]
    simp only [step, Machine.give, Machine.report, if_true, Scope.bind_of_open hm]
  · rw [CheckM.checkBinding, Machine.state, bind_of_ok (CheckM.typeOf_run (path.child 0) value),
      CheckM.bind_run (by rw [Machine.types, Scope.isEmpty_mapValues, hm])]
    simp only [Machine.state, Machine.types, Scope.mapValues_insert, Machine.report]

theorem mirrors_declaration (path : TreePath) (property : String) (value : Expr) (span : Span) :
    Mirrors (typing (path.child 0) value ++ [.declare path property span])
      (CheckM.checkDeclaration path property value span) := by
  intro m hm
  obtain ⟨lookups, hr⟩ := run_typing m (path.child 0) value
  refine ⟨{ m.report (declarationReports m.types path property value span) with lookups },
    ?_, CheckM.checkDeclaration_run path property value span, rfl, rfl⟩
  rw [run_append, hr, Option.bind_some, run_singleton]
  simp only [step, Machine.give, Machine.report, declarationReports, List.append_assoc]
  cases (value.infer m.types (path.child 0)).1 <;> rfl

end Mirrors

mutual

theorem mirrors_item (kind : BlockKind) (path : TreePath) (node : Node) :
    Mirrors (item kind path node) (CheckM.checkItem kind path node) := by
  match node with
  | .declaration property value span =>
    unfold item CheckM.checkItem
    exact mirrors_declaration path property value span
  | .binding name value span =>
    unfold item CheckM.checkItem
    exact mirrors_binding path name value span
  | .conditional condition items otherwise span =>
    have hc := ((mirrors_condition (path.child 0) condition).append
      (mirrors_body .conditional path 1 items)).framed
    unfold item CheckM.checkItem
    rw [bind_assoc] at hc
    refine Mirrors.append (fun m _ => hc m) ?_
    match otherwise with
    | none => exact mirrors_nil
    | some ⟨others, _⟩ =>
      exact fun m _ => (mirrors_body .alternative (path.child (1 + items.length)) 0 others).framed m
  | .alternative ⟨items, span⟩ =>
    unfold item CheckM.checkItem
    split_ifs
    · exact fun m _ => (mirrors_body .alternative path 0 items).framed m
    · exact mirrors_report _
  | .rule _ _ span =>
    unfold item CheckM.checkItem
    exact mirrors_report _
  | .document _ span =>
    unfold item CheckM.checkItem
    exact mirrors_report _

theorem mirrors_body (kind : BlockKind) (path : TreePath) (index : Nat) (items : List Node) :
    Mirrors (body kind path index items) (CheckM.checkBody kind path index items) := by
  match items with
  | [] =>
    unfold body CheckM.checkBody
    exact mirrors_nil
  | first :: later =>
    unfold body CheckM.checkBody
    exact (mirrors_item kind (path.child index) first).append
      (mirrors_body kind path (index + 1) later)

end

theorem mirrors_child (path : TreePath) (node : Node) :
    Mirrors (child path node) (CheckM.checkChild path node) := by
  cases node with
  | binding name value span => exact mirrors_binding path name value span
  | rule selectors items span => exact fun m _ => (mirrors_body .rule path 0 items).framed m
  | _ => exact mirrors_report _

theorem mirrors_children (index : Nat) (nodes : List Node) :
    Mirrors (children index nodes) (CheckM.checkChildren index nodes) := by
  induction nodes generalizing index with
  | nil => exact mirrors_nil
  | cons first later ih => exact (mirrors_child _ first).append (ih (index + 1))

/-- The program of a document runs to its end and does what the check does. -/
theorem mirrors_program (nodes : List Node) (span : Span) :
    MirrorsAt .start (program nodes) (CheckM.checkRoot (.document nodes span)) :=
  (mirrors_children 0 nodes).framed .start

end Stepwise

end Stylesheet
