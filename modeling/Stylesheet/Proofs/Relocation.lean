import Stylesheet.Proofs.Acceptance
import Stylesheet.Proofs.Parsing

/-! # Relocated sources

Positions are carried along and never looked at. When every position in a list
of tokens is moved by a function, the positions in what is read from them move
by the same function, and so do those of faults. Nothing else changes.
-/

namespace Stylesheet

open TokenReader

def Span.relocate (f : Position → Position) (span : Span) : Span := ⟨f span.start, f span.stop⟩

def Token.relocate (f : Position → Position) (token : Token) : Token :=
  { token with span := token.span.relocate f }

@[simp] theorem Token.kind_relocate (f : Position → Position) (token : Token) :
    (token.relocate f).kind = token.kind := rfl

def Selector.relocate (f : Position → Position) (selector : Selector) : Selector :=
  { selector with span := selector.span.relocate f }

def Fault.relocate (f : Position → Position) (fault : Fault) : Fault :=
  { fault with position := f fault.position }

def Expr.relocate (f : Position → Position) : Expr → Expr
  | literal value span => literal value (span.relocate f)
  | reference name span => reference name (span.relocate f)
  | operation operator left right span =>
    operation operator (left.relocate f) (right.relocate f) (span.relocate f)

namespace Node

mutual

/-- A tree with all its positions moved. -/
def relocate (f : Position → Position) : Node → Node
  | document children span => document (relocateAll f children) (span.relocate f)
  | rule selectors body span =>
    rule (selectors.map (.relocate f)) (relocateAll f body) (span.relocate f)
  | conditional condition body none span =>
    conditional (condition.relocate f) (relocateAll f body) none (span.relocate f)
  | conditional condition body (some ⟨items, place⟩) span =>
    conditional (condition.relocate f) (relocateAll f body)
      (some ⟨relocateAll f items, place.relocate f⟩) (span.relocate f)
  | alternative ⟨items, place⟩ => alternative ⟨relocateAll f items, place.relocate f⟩
  | declaration property value span =>
    declaration property (value.relocate f) (span.relocate f)
  | binding name value span => binding name (value.relocate f) (span.relocate f)

def relocateAll (f : Position → Position) : List Node → List Node
  | [] => []
  | node :: nodes => node.relocate f :: relocateAll f nodes

end

theorem relocateAll_eq_map (f : Position → Position) (nodes : List Node) :
    relocateAll f nodes = nodes.map (relocate f) := by
  induction nodes with
  | nil => rfl
  | cons node nodes ih => rw [relocateAll, ih, List.map_cons]

theorem reverse_relocateAll (f : Position → Position) (nodes : List Node) :
    (relocateAll f nodes).reverse = relocateAll f nodes.reverse := by
  rw [relocateAll_eq_map, relocateAll_eq_map, List.map_reverse]

end Node

theorem Expr.relocate_id (e : Expr) : e.relocate id = e := by
  induction e with
  | literal value span => rfl
  | reference name span => rfl
  | operation operator left right span ihl ihr =>
    rw [relocate, ihl, ihr]
    rfl

namespace Node

theorem map_selector_relocate_id (selectors : List Selector) :
    selectors.map (.relocate id) = selectors :=
  List.map_id selectors

mutual

theorem relocate_id (node : Node) : node.relocate id = node := by
  match node with
  | document children span =>
    rw [relocate, relocateAll_id children]
    rfl
  | rule selectors body span =>
    rw [relocate, relocateAll_id body, map_selector_relocate_id]
    rfl
  | conditional condition body none span =>
    rw [relocate, relocateAll_id body, Expr.relocate_id]
    rfl
  | conditional condition body (some ⟨items, place⟩) span =>
    rw [relocate, relocateAll_id body, relocateAll_id items, Expr.relocate_id]
    rfl
  | alternative ⟨items, place⟩ =>
    rw [relocate, relocateAll_id items]
    rfl
  | declaration property value span =>
    rw [relocate, Expr.relocate_id]
    rfl
  | binding name value span =>
    rw [relocate, Expr.relocate_id]
    rfl

theorem relocateAll_id (nodes : List Node) : relocateAll id nodes = nodes := by
  match nodes with
  | [] => rfl
  | node :: nodes => rw [relocateAll, relocate_id node, relocateAll_id nodes]

end

end Node

section Readers

variable (f : Position → Position)

@[simp] theorem Expr.span_relocate (e : Expr) : (e.relocate f).span = e.span.relocate f := by
  cases e <;> rfl

def Step.relocate (step : Step) : Step := { step with operand := step.operand.relocate f }

def Awaiting.relocate (awaiting : Awaiting) : Awaiting :=
  { awaiting with left := awaiting.left.relocate f }

def Header.relocate : Header → Header
  | rule start selectors => rule (f start) (selectors.map (.relocate f))
  | consequence start condition => consequence (f start) (condition.relocate f)
  | alternative start condition body elseStart =>
    alternative (f start) (condition.relocate f) (Node.relocateAll f body) (f elseStart)

def OpenBlock.relocate (block : OpenBlock) : OpenBlock :=
  ⟨block.header.relocate f, Node.relocateAll f block.items⟩

def Opening.relocate : Opening → Opening
  | complete node => complete (node.relocate f)
  | opened block => opened (block.relocate f)

namespace TokenStream

def relocate (stream : TokenStream) : TokenStream :=
  ⟨stream.pending.map (.relocate f), stream.endText, stream.endSpan.relocate f⟩

variable (stream : TokenStream)

@[simp] theorem current_relocate : (stream.relocate f).current = stream.current.relocate f := by
  obtain ⟨pending, endText, endSpan⟩ := stream
  cases pending <;> rfl

@[simp] theorem following_relocate :
    (stream.relocate f).following = stream.following.relocate f := by
  obtain ⟨pending, endText, endSpan⟩ := stream
  rcases pending with _ | ⟨_, _ | _⟩ <;> rfl

@[simp] theorem advance_relocate : (stream.relocate f).advance = stream.advance.relocate f := by
  obtain ⟨pending, endText, endSpan⟩ := stream
  cases pending <;> rfl

@[simp] theorem atEnd_relocate : (stream.relocate f).atEnd = stream.atEnd := by
  rw [atEnd, atEnd, current_relocate]
  rfl

@[simp] theorem endsBlock_relocate : (stream.relocate f).endsBlock = stream.endsBlock := by
  rw [endsBlock, endsBlock, atEnd_relocate, current_relocate]
  rfl

end TokenStream

def relocated {α : Type} (g : α → α) :
    EStateM.Result Fault TokenStream α → EStateM.Result Fault TokenStream α
  | .ok a rest => .ok (g a) (rest.relocate f)
  | .error fault rest => .error (fault.relocate f) (rest.relocate f)

/-- What one reader does with a stream, another does with the relocated stream. -/
def Moves {α : Type} (g : α → α) (reader reader' : TokenReader α) : Prop :=
  ∀ stream, reader' (stream.relocate f) = relocated f g (reader stream)

namespace Moves

variable {f} {α β : Type} {g : α → α} {g' : β → β} {reader reader' : TokenReader α}
  {next next' : α → TokenReader β}

theorem pure (a : α) : Moves f g (pure a) (pure (g a)) := fun _ => rfl

theorem throw (fault : Fault) :
    Moves f g (throw fault : TokenReader α) (throw (fault.relocate f)) := fun _ => rfl

theorem bind_at {stream : TokenStream}
    (h : reader' (stream.relocate f) = relocated f g (reader stream))
    (hn : ∀ a rest, reader stream = .ok a rest →
      next' (g a) (rest.relocate f) = relocated f g' (next a rest)) :
    (reader' >>= next') (stream.relocate f) = relocated f g' ((reader >>= next) stream) := by
  cases hr : reader stream with
  | ok a rest =>
    rw [hr] at h
    rw [bind_of_ok h, bind_of_ok hr, hn a rest hr]
  | error fault rest =>
    rw [hr] at h
    rw [bind_of_error h, bind_of_error hr]
    rfl

theorem bind (h : Moves f g reader reader') (hn : ∀ a, Moves f g' (next a) (next' (g a))) :
    Moves f g' (reader >>= next) (reader' >>= next') :=
  fun stream => bind_at (h stream) fun a rest _ => hn a rest

theorem readWhile {wanted : TokenStream → Bool} (advances : Advances reader)
    (hw : ∀ stream : TokenStream, wanted (stream.relocate f) = wanted stream)
    (h : Moves f g reader reader) :
    Moves f (List.map g) (readWhile wanted reader advances) (readWhile wanted reader advances) := by
  intro stream
  induction hn : stream.size using Nat.strongRecOn generalizing stream with
  | ind n ih =>
    subst hn
    by_cases ht : wanted stream = true
    · rw [readWhile_of_wanted ht, readWhile_of_wanted ((hw stream).trans ht)]
      refine bind_at (h stream) fun a rest hr => ?_
      exact bind_at (ih _ (advances _ _ _ hr) rest rfl) fun as rest _ => rfl
    · have hf : wanted stream = false := by simpa using ht
      rw [readWhile_of_not hf, readWhile_of_not ((hw stream).trans hf)]
      rfl

end Moves

theorem moves_current : Moves f (.relocate f) current current := by
  intro stream
  rw [current_run, current_run, TokenStream.current_relocate]
  rfl

theorem moves_advance : Moves f (.relocate f) advance advance := by
  intro stream
  change EStateM.Result.ok (stream.relocate f).current (stream.relocate f).advance = _
  rw [TokenStream.current_relocate, TokenStream.advance_relocate]
  rfl

theorem moves_unexpected : Moves f (.relocate f) unexpected unexpected :=
  (moves_current f).bind fun _ => .pure _

theorem moves_misplaced (message : String) :
    Moves f (.relocate f) (misplaced message) (misplaced message) :=
  (moves_current f).bind fun _ => .pure _

theorem moves_expectOr (kind : TokenKind) (fault : Fault) :
    Moves f (.relocate f) (expectOr kind fault) (expectOr kind (fault.relocate f)) := by
  refine (moves_current f).bind fun token => ?_
  rw [Token.kind_relocate]
  split
  · exact moves_advance f
  · exact .throw fault

theorem moves_expect (kind : TokenKind) : Moves f (.relocate f) (expect kind) (expect kind) :=
  (moves_unexpected f).bind fun fault => moves_expectOr f kind fault

theorem moves_expectFor (message : String) (kind : TokenKind) :
    Moves f (.relocate f) (expectFor message kind) (expectFor message kind) :=
  (moves_misplaced f message).bind fun fault => moves_expectOr f kind fault

/-! ## Expressions -/

theorem Token.operand_relocate (token : Token) :
    (token.relocate f).operand = token.operand.map (.relocate f) := by
  have hq (dimension : Dimension) :
      (token.relocate f).quantity dimension = (token.quantity dimension).map (.relocate f) := by
    simp only [quantity, relocate]
    split <;> rfl
  obtain ⟨kind, text, span⟩ := token
  cases kind with
  | pixel => exact hq .pixel
  | percentage => exact hq .percentage
  | scalar => exact hq .scalar
  | _ => rfl

namespace Expr

theorem relocate_join (operator : Operator) (left right : Expr) :
    (join operator left right).relocate f =
      join operator (left.relocate f) (right.relocate f) := by
  simp only [join, relocate, span_relocate]
  rfl

theorem settle_relocate (power : Precedence) (awaiting : List Awaiting) (right : Expr) :
    settle power (awaiting.map (.relocate f)) (right.relocate f) =
      ((settle power awaiting right).1.map (.relocate f),
        (settle power awaiting right).2.relocate f) := by
  induction awaiting generalizing right with
  | nil => rfl
  | cons a outer ih =>
    rw [List.map_cons, settle, settle]
    change (if a.power < power then _ else _) = _
    split
    · rfl
    · rw [← ih, relocate_join]
      rfl

theorem group_relocate (awaiting : List Awaiting) (operand : Expr) (steps : List Step) :
    group (awaiting.map (.relocate f)) (operand.relocate f) (steps.map (.relocate f)) =
      (group awaiting operand steps).relocate f := by
  induction steps generalizing awaiting operand with
  | nil =>
    rw [List.map_nil, group, group]
    induction awaiting generalizing operand with
    | nil => rfl
    | cons a outer ih =>
      rw [List.map_cons, List.foldl_cons, List.foldl_cons, ← ih, relocate_join]
      rfl
  | cons step steps ih =>
    rw [List.map_cons, group, group]
    simp only [Step.relocate, settle_relocate]
    rw [← ih]
    rfl

end Expr

theorem moves_readPrimary : Moves f (.relocate f) readPrimary readPrimary := by
  refine (moves_current f).bind fun token => ?_
  rw [Token.operand_relocate]
  cases token.operand with
  | ok e => exact (moves_advance f).bind fun _ => .pure e
  | error cause => exact .throw _

theorem moves_readOperand (grammar : Grammar) :
    Moves f (.relocate f) (readOperand grammar) (readOperand grammar) := by
  refine (moves_current f).bind fun token => ?_
  rw [Token.kind_relocate]
  split
  · exact moves_readPrimary f
  · exact (moves_misplaced f _).bind fun fault => .throw fault

theorem moves_readOperator : Moves f id readOperator readOperator := by
  refine (moves_advance f).bind fun token => ?_
  have ho : (token.relocate f).operator? = token.operator? := rfl
  rw [ho]
  cases token.operator? with
  | some operator => exact .pure operator
  | none => exact .throw _

theorem moves_readStep (grammar : Grammar) :
    Moves f (.relocate f) (readStep grammar) (readStep grammar) :=
  (moves_current f).bind fun _ => (moves_readOperator f).bind fun _ =>
    (moves_readOperand f grammar).bind fun _ => .pure _

theorem moves_readExpr (grammar : Grammar) (limit : Precedence) :
    Moves f (.relocate f) (readExpr grammar limit) (readExpr grammar limit) := by
  refine (moves_readOperand f grammar).bind fun operand => ?_
  refine ((moves_readStep f grammar).readWhile _ fun stream => ?_).bind fun steps => ?_
  · rw [TokenStream.current_relocate]
    rfl
  · rw [← List.map_nil, Expr.group_relocate]
    exact .pure _

/-! ## Statements -/

theorem moves_readBinding (grammar : Grammar) :
    Moves f (.relocate f) (readBinding grammar) (readBinding grammar) :=
  (moves_expect f _).bind fun _ => (moves_expectFor f _ _).bind fun _ =>
    (moves_readExpr f grammar _).bind fun _ => (moves_expect f _).bind fun _ => .pure _

theorem moves_readDeclaration (grammar : Grammar) :
    Moves f (.relocate f) (readDeclaration grammar) (readDeclaration grammar) :=
  (moves_expect f _).bind fun _ => (moves_expect f _).bind fun _ =>
    (moves_readExpr f grammar _).bind fun _ => (moves_expect f _).bind fun _ => .pure _

theorem moves_readSelector : Moves f (.relocate f) readSelector readSelector := by
  refine (moves_current f).bind fun token => ?_
  change Moves f _ _ (if token.isOneOf selectorKinds then _ else _)
  split
  · exact (moves_advance f).bind fun _ => .pure _
  · exact (moves_misplaced f _).bind fun fault => .throw fault

theorem moves_readMoreSelectors :
    Moves f (List.map (.relocate f)) readMoreSelectors readMoreSelectors := by
  have hn : Moves f (.relocate f) readNextSelector readNextSelector :=
    (moves_expect f _).bind fun _ => moves_readSelector f
  refine hn.readWhile _ fun stream => ?_
  rw [TokenStream.current_relocate]
  rfl

theorem moves_readRuleHeader : Moves f (.relocate f) readRuleHeader readRuleHeader :=
  (moves_readSelector f).bind fun _ => (moves_readMoreSelectors f).bind fun _ =>
    (moves_expect f _).bind fun _ => .pure _

theorem moves_readConditionalHeader (grammar : Grammar) :
    Moves f (.relocate f) (readConditionalHeader grammar) (readConditionalHeader grammar) :=
  (moves_expect f _).bind fun _ => (moves_expectFor f _ _).bind fun _ =>
    (moves_readExpr f grammar _).bind fun _ => (moves_expect f _).bind fun _ =>
      (moves_expect f _).bind fun _ => .pure _

theorem moves_readForm (grammar : Grammar) (form : StatementForm) :
    Moves f (.relocate f) (readForm grammar form) (readForm grammar form) := by
  have hd : Moves f (.relocate f) (Opening.complete <$> readDeclaration grammar)
      (Opening.complete <$> readDeclaration grammar) :=
    (moves_readDeclaration f grammar).bind fun node => .pure _
  have hr : Moves f (.relocate f) (Opening.opened <$> readRuleHeader)
      (Opening.opened <$> readRuleHeader) :=
    (moves_readRuleHeader f).bind fun block => .pure _
  cases form with
  | binding => exact (moves_readBinding f grammar).bind fun node => .pure _
  | declaration => exact hd
  | rule => exact hr
  | conditional => exact (moves_readConditionalHeader f grammar).bind fun block => .pure _
  | declarationOrRule =>
    have hg : Moves f (.relocate f) (get : TokenReader TokenStream) get := fun _ => rfl
    refine hg.bind fun stream => ?_
    rw [TokenStream.following_relocate, Token.kind_relocate]
    split
    · exact hd
    · exact hr

theorem moves_readOpening (grammar : Grammar) :
    Moves f (.relocate f) (readOpening grammar) (readOpening grammar) := by
  refine (moves_current f).bind fun token => ?_
  rw [Token.kind_relocate]
  cases grammar.form? token.kind with
  | some form => exact moves_readForm f grammar form
  | none => exact (moves_misplaced f _).bind fun fault => .throw fault

theorem moves_closeBlock (block : OpenBlock) :
    Moves f (.relocate f) (closeBlock block) (closeBlock (block.relocate f)) := by
  obtain ⟨header, items⟩ := block
  refine (moves_expect f _).bind fun brace => ?_
  cases header with
  | rule start selectors =>
    simp only [OpenBlock.relocate, Header.relocate, Node.reverse_relocateAll]
    exact .pure (Opening.complete (.rule selectors items.reverse ⟨start, brace.span.stop⟩))
  | consequence start condition =>
    refine (moves_current f).bind fun token => ?_
    rw [Token.kind_relocate]
    split
    · refine (moves_advance f).bind fun word => (moves_expect f _).bind fun _ => ?_
      simp only [OpenBlock.relocate, Node.reverse_relocateAll]
      exact .pure (Opening.opened
        ⟨.alternative start condition items.reverse word.span.start, []⟩)
    · simp only [OpenBlock.relocate, Node.reverse_relocateAll]
      exact .pure (Opening.complete
        (.conditional condition items.reverse none ⟨start, brace.span.stop⟩))
  | alternative start condition body elseStart =>
    simp only [OpenBlock.relocate, Header.relocate, Node.reverse_relocateAll]
    exact .pure (Opening.complete (.conditional condition body
      (some ⟨items.reverse, ⟨elseStart, brace.span.stop⟩⟩) ⟨start, brace.span.stop⟩))

/-- The blocks are closed one by one: the induction is on what is left to read. -/
theorem moves_readBlocks (grammar : Grammar) (block : OpenBlock) :
    Moves f (.relocate f) (readBlocks grammar block [])
      (readBlocks grammar (block.relocate f) []) := by
  intro stream
  induction hn : stream.size using Nat.strongRecOn generalizing stream block with
  | ind n ih =>
    subst hn
    have hf (opening : Opening) (rest : TokenStream) (hlt : rest.size < stream.size) :
        (opening.relocate f).finish grammar (rest.relocate f) =
          relocated f (.relocate f) (opening.finish grammar rest) := by
      cases opening with
      | complete node => rfl
      | opened inner => exact ih _ hlt inner rest rfl
    by_cases he : stream.endsBlock = true
    · rw [readBlocks_nil_of_ends he,
        readBlocks_nil_of_ends ((TokenStream.endsBlock_relocate f stream).trans he)]
      refine Moves.bind_at (moves_closeBlock f block stream) fun opening rest hc => ?_
      exact hf opening rest (advances_closeBlock block _ _ _ hc)
    · have he : stream.endsBlock = false := by simpa using he
      rw [readBlocks_nil_of_not_ends he,
        readBlocks_nil_of_not_ends ((TokenStream.endsBlock_relocate f stream).trans he)]
      have hs : readStatement grammar (stream.relocate f) =
          relocated f (.relocate f) (readStatement grammar stream) :=
        Moves.bind_at (moves_readOpening f grammar stream) fun opening rest ho =>
          hf opening rest (advances_readOpening grammar _ _ _ ho)
      refine Moves.bind_at hs fun node rest hr => ?_
      exact ih _ (advances_readStatement grammar _ _ _ hr) (block.add node) rest rfl

theorem moves_readStatement (grammar : Grammar) :
    Moves f (.relocate f) (readStatement grammar) (readStatement grammar) := by
  refine (moves_readOpening f grammar).bind fun opening => ?_
  cases opening with
  | complete node => exact .pure node
  | opened block => exact moves_readBlocks f grammar block

theorem moves_readStatements (grammar : Grammar) :
    Moves f (List.map (.relocate f)) (readStatements grammar) (readStatements grammar) := by
  refine (moves_readStatement f grammar).readWhile _ fun stream => ?_
  rw [TokenStream.atEnd_relocate]

end Readers

/-! ## Checking -/

/-- A diagnostic of a relocated tree, seen from a node above it. -/
def Diagnostic.move (above : TreePath) (f : Position → Position) (diagnostic : Diagnostic) :
    Diagnostic :=
  { diagnostic with path := above ++ diagnostic.path, span := diagnostic.span.relocate f }

@[simp] theorem TreePath.child_append (above path : TreePath) (index : Nat) :
    TreePath.child (above ++ path) index = above ++ path.child index :=
  List.append_assoc above path [index]

section Checking

variable (scope : TypeScope) (above path : TreePath) (f : Position → Position)

namespace Expr

theorem referenceType_move (name : String) (span : Span) :
    referenceType scope (above ++ path) name (span.relocate f) =
      (referenceType scope path name span).map id (List.map (.move above f)) := by
  unfold referenceType
  split <;> rfl

@[simp] theorem isPlainLiteral_relocate (e : Expr) :
    (e.relocate f).isPlainLiteral = e.isPlainLiteral := by
  rcases e with ⟨_ | _ | _, _⟩ | _ | _ <;> rfl

theorem infer_move (e : Expr) :
    (e.relocate f).infer scope (above ++ path) =
      (e.infer scope path).map id (List.map (.move above f)) := by
  induction e generalizing path with
  | literal value span => rfl
  | reference name span => exact referenceType_move scope above path f name span
  | operation operator left right span ihl ihr =>
    simp only [relocate, infer, isPlainLiteral_relocate, TreePath.child_append, ihl, ihr]
    split_ifs
    · simp [plainOperand, Diagnostic.move]
    · simp [plainOperand, Diagnostic.move]
    · simp only [Prod.map_fst, Prod.map_snd, id_eq]
      split <;> simp [Diagnostic.move]

theorem inferCondition_move (e : Expr) :
    (e.relocate f).inferCondition scope (above ++ path) =
      (e.inferCondition scope path).map (.move above f) := by
  cases e with
  | literal value span =>
    simp only [relocate, inferCondition]
    split_ifs <;> rfl
  | reference name span =>
    simp only [relocate, inferCondition, referenceType_move, Prod.map_fst, Prod.map_snd, id_eq]
    split_ifs
    · rfl
    · rw [List.map_append]
      rfl
  | operation operator left right span => rfl

end Expr

theorem TypeScope.behind_relocate (node : Node) :
    scope.behind (node.relocate f) = scope.behind node := by
  cases node with
  | binding name value span =>
    have h := value.infer_move scope [] .root f
    rw [Node.relocate, behind, behind]
    change scope.insert name ((value.relocate f).infer scope ([] ++ TreePath.root)).1 = _
    rw [h]
    rfl
  | conditional condition body otherwise span => cases otherwise <;> rfl
  | _ => rfl

theorem declarationReports_move (property : String) (value : Expr) (span : Span) :
    declarationReports scope (above ++ path) property (value.relocate f) (span.relocate f) =
      (declarationReports scope path property value span).map (.move above f) := by
  simp only [declarationReports, TreePath.child_append, Expr.infer_move, Prod.map_fst,
    Prod.map_snd, id_eq, List.map_append]
  cases (value.infer scope (path.child 0)).1 with
  | none => rfl
  | some type =>
    rw [List.map_map]
    rfl

mutual

theorem itemReports_move (scope : TypeScope) (kind : BlockKind) (above path : TreePath)
    (f : Position → Position) (item : Node) :
    itemReports scope kind (above ++ path) (item.relocate f) =
      (itemReports scope kind path item).map (.move above f) := by
  match item with
  | .declaration property value span =>
    exact declarationReports_move scope above path f property value span
  | .binding name value span =>
    rw [Node.relocate, itemReports, itemReports, TreePath.child_append, Expr.infer_move]
    rfl
  | .conditional condition body none span =>
    rw [Node.relocate, itemReports, itemReports, TreePath.child_append,
      Expr.inferCondition_move, bodyReports_move, List.map_append, List.map_append]
    rfl
  | .conditional condition body (some ⟨items, place⟩) span =>
    have hl : (Node.relocateAll f body).length = body.length := by
      rw [Node.relocateAll_eq_map, List.length_map]
    simp only [Node.relocate, itemReports, TreePath.child_append, Expr.inferCondition_move,
      bodyReports_move, hl, List.map_append]
  | .alternative ⟨items, span⟩ =>
    unfold itemReports Node.relocate
    split_ifs
    · exact bodyReports_move ..
    · rfl
  | .rule _ _ span => rfl
  | .document _ span => rfl

theorem bodyReports_move (scope : TypeScope) (kind : BlockKind) (above path : TreePath)
    (f : Position → Position) (index : Nat) (items : List Node) :
    bodyReports scope kind (above ++ path) index (Node.relocateAll f items) =
      (bodyReports scope kind path index items).map (.move above f) := by
  match items with
  | [] => rfl
  | item :: items =>
    rw [Node.relocateAll, bodyReports, TreePath.child_append, itemReports_move,
      TypeScope.behind_relocate, bodyReports_move, bodyReports, List.map_append]

end

theorem childReports_move (child : Node) :
    childReports scope (above ++ path) (child.relocate f) =
      (childReports scope path child).map (.move above f) := by
  match child with
  | .binding name value span =>
    rw [Node.relocate, childReports, TreePath.child_append, Expr.infer_move, childReports]
    rfl
  | .rule selectors body span =>
    rw [Node.relocate, childReports, bodyReports_move, childReports]
  | .conditional _ _ none _ => rfl
  | .conditional _ _ (some _) _ => rfl
  | .declaration _ _ _ => rfl
  | .document _ _ => rfl
  | .alternative _ => rfl

theorem childrenReports_relocate (index : Nat) (children : List Node) :
    childrenReports scope index (children.map (.relocate f)) =
      (childrenReports scope index children).map (.move [] f) := by
  induction children generalizing scope index with
  | nil => rfl
  | cons child children ih =>
    have hc := childReports_move scope [] (TreePath.root.child index) f child
    rw [List.nil_append] at hc
    rw [List.map_cons, childrenReports, hc, TypeScope.behind_relocate, ih, childrenReports,
      List.map_append]

end Checking

theorem Diagnostic.sort_map_move (f : Position → Position) (reports : List Diagnostic) :
    sort (reports.map (.move [] f)) = (sort reports).map (.move [] f) := by
  symm
  apply List.map_mergeSort
  intro a _ b _
  rfl

theorem check_relocate (f : Position → Position) (children : List Node) (span span' : Span) :
    ∃ reports, check (.document children span) = .ok reports ∧
      check (.document (children.map (.relocate f)) span') =
        .ok (reports.map (.move [] f)) := by
  refine ⟨_, check_document children span, ?_⟩
  rw [check_document, childrenReports_relocate, Diagnostic.sort_map_move]

/-! ## Evaluating and printing -/

section Evaluating

variable (env : Env Literal) (f : Position → Position)

namespace Expr

@[simp] theorem valueIn_relocate (e : Expr) : (e.relocate f).valueIn env = e.valueIn env := by
  induction e with
  | literal value span => rfl
  | reference name span => rfl
  | operation operator left right span ihl ihr => simp only [relocate, valueIn, ihl, ihr]

theorem foldedIn_relocate (e : Expr) :
    (e.relocate f).foldedIn env = (e.foldedIn env).relocate f := by
  rw [foldedIn, foldedIn, valueIn_relocate, span_relocate]
  cases e.valueIn env <;> rfl

end Expr

theorem Env.behind_relocate (node : Node) : env.behind (node.relocate f) = env.behind node := by
  cases node with
  | binding name value span => simp only [Node.relocate, behind, Expr.valueIn_relocate]
  | conditional condition body otherwise span => cases otherwise <;> rfl
  | _ => rfl

namespace Lexical

mutual

theorem item_relocate (env : Env Literal) (f : Position → Position) (node : Node) :
    item env (node.relocate f) = Node.relocateAll f (item env node) := by
  match node with
  | .declaration property value span =>
    simp only [Node.relocate, item, Expr.foldedIn_relocate, Node.relocateAll]
  | .conditional condition items none span =>
    rw [Node.relocate, item, item, Expr.valueIn_relocate]
    split
    · exact body_relocate env f items
    · rfl
    · rfl
  | .conditional condition items (some ⟨items', place⟩) span =>
    rw [Node.relocate, item, item, Expr.valueIn_relocate]
    split
    · exact body_relocate env f items
    · exact body_relocate env f items'
    · rfl
  | .binding _ _ _ => rfl
  | .document _ _ => rfl
  | .rule _ _ _ => rfl
  | .alternative _ => rfl

theorem body_relocate (env : Env Literal) (f : Position → Position) (items : List Node) :
    body env (Node.relocateAll f items) = Node.relocateAll f (body env items) := by
  match items with
  | [] => rfl
  | first :: later =>
    rw [Node.relocateAll, body, item_relocate env f first, Env.behind_relocate,
      body_relocate _ f later, body]
    simp only [Node.relocateAll_eq_map, List.map_append]

end

theorem children_relocate (nodes : List Node) :
    children env (nodes.map (.relocate f)) = (children env nodes).map (.relocate f) := by
  induction nodes generalizing env with
  | nil => rfl
  | cons node nodes ih =>
    cases node with
    | rule selectors items span =>
      simp only [List.map_cons, Node.relocate, children, body_relocate, ih]
    | conditional condition items otherwise span =>
      cases otherwise <;> exact ih _
    | binding name value span =>
      have hb := Env.behind_relocate env f (.binding name value span)
      simp only [List.map_cons, Node.relocate, children] at hb ⊢
      rw [hb, ih]
    | _ => exact ih _

end Lexical

namespace Css

theorem printed?_relocate (node : Node) : printed? (node.relocate f) = printed? node := by
  cases node with
  | declaration property value span => cases value <;> rfl
  | conditional condition body otherwise span => cases otherwise <;> rfl
  | _ => rfl

theorem blocksOf_relocate (node : Node) : blocksOf (node.relocate f) = blocksOf node := by
  cases node with
  | rule selectors body span =>
    simp only [Node.relocate, blocksOf, Node.relocateAll_eq_map, List.map_map,
      List.filterMap_map, Function.comp_def, printed?_relocate, Selector.relocate]
  | conditional condition body otherwise span => cases otherwise <;> rfl
  | _ => rfl

end Css

theorem produce_relocate (children : List Node) (span span' : Span) :
    (produce (.document (children.map (.relocate f)) span')).1 =
      (produce (.document children span)).1 := by
  simp only [produce_document, Lexical.children_relocate, List.flatMap_map,
    Css.blocksOf_relocate]

end Evaluating

end Stylesheet
