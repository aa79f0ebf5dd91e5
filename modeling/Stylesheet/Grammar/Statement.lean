import Stylesheet.Grammar.Expression
import Stylesheet.Node

/-! # Reading statements

Bindings and declarations are read in one go. Rules and conditionals open
blocks: a block that has been opened waits on a stack, with the items read so
far, until its brace closes it. Each piece that is read takes a token, so
reading ends on every stream.
-/

namespace Stylesheet

open TokenReader

inductive Header where
  | rule (start : Position) (selectors : List Selector)
  /-- The branch of a conditional that is taken when the condition holds. -/
  | consequence (start : Position) (condition : Expr)
  /-- The other branch, behind the first one. -/
  | alternative (start : Position) (condition : Expr) (body : List Node) (elseStart : Position)

/-- A block whose brace has not been closed, with its items last first. -/
structure OpenBlock where
  header : Header
  items : List Node

def OpenBlock.add (block : OpenBlock) (item : Node) : OpenBlock :=
  { block with items := item :: block.items }

/-- What the start of a statement gives: all of it, or a block to be read. -/
inductive Opening where
  | complete (node : Node)
  | opened (block : OpenBlock)

/-- `Name := expression;` -/
def readBinding (grammar : Grammar) : TokenReader Node := do
  let name ← expect .capitalName
  let _ ← expectFor "expected `:=` after variable name" .assign
  let value ← readExpr grammar .lowest
  let close ← expect .semicolon
  return .binding name.text value ⟨name.span.start, close.span.stop⟩

/-- `property: expression;` -/
def readDeclaration (grammar : Grammar) : TokenReader Node := do
  let property ← expect .lowerName
  let _ ← expect .colon
  let value ← readExpr grammar .lowest
  let close ← expect .semicolon
  return .declaration property.text value ⟨property.span.start, close.span.stop⟩

def selectorKinds : List TokenKind := [.classSelector, .idSelector, .color, .lowerName]

def readSelector : TokenReader Selector := do
  if (← current).isOneOf selectorKinds then
    let token ← advance
    return ⟨token.text, token.span⟩
  else throw (← misplaced "expected a selector")

def readNextSelector : TokenReader Selector := do
  let _ ← expect .comma
  readSelector

theorem advances_readSelector : Advances readSelector := by
  intro stream selector rest h
  obtain ⟨token, between, ht, h⟩ := bind_eq_ok.mp h
  cases ht
  by_cases hk : stream.current.isOneOf selectorKinds
  · rw [if_pos hk] at h
    cases h
    refine TokenStream.size_advance_lt fun he => ?_
    rw [Token.isOneOf, he] at hk
    exact absurd hk (by decide)
  · rw [if_neg hk] at h
    obtain ⟨fault, between, _, h⟩ := bind_eq_ok.mp h
    cases h

theorem advances_readNextSelector : Advances readNextSelector :=
  (advances_expect (by decide)).bind fun _ => advances_readSelector.steady

def readMoreSelectors : TokenReader (List Selector) :=
  readWhile (fun stream => stream.current.kind = .comma) readNextSelector advances_readNextSelector

/-- `selector, selector {` -/
def readRuleHeader : TokenReader OpenBlock := do
  let first ← readSelector
  let more ← readMoreSelectors
  let _ ← expect .openBrace
  return ⟨.rule first.span.start (first :: more), []⟩

/-- `if [condition] {` -/
def readConditionalHeader (grammar : Grammar) : TokenReader OpenBlock := do
  let word ← expect .ifWord
  let _ ← expectFor "expected `[` after `if`" .openBracket
  let condition ← readExpr grammar .lowest
  let _ ← expect .closeBracket
  let _ ← expect .openBrace
  return ⟨.consequence word.span.start condition, []⟩

def readForm (grammar : Grammar) : StatementForm → TokenReader Opening
  | .binding => do return .complete (← readBinding grammar)
  | .declaration => do return .complete (← readDeclaration grammar)
  | .rule => do return .opened (← readRuleHeader)
  | .conditional => do return .opened (← readConditionalHeader grammar)
  | .declarationOrRule => do
    if (← get).following.kind = .colon then return .complete (← readDeclaration grammar)
    else return .opened (← readRuleHeader)

/-- Read the start of a statement, whose form the current token decides. -/
def readOpening (grammar : Grammar) : TokenReader Opening := do
  match grammar.form? (← current).kind with
  | some form => readForm grammar form
  | none =>
    throw (← misplaced "expected a variable binding, rule, declaration or if clause")

/-- Close a block. The first branch of a conditional may open the other one. -/
def closeBlock (block : OpenBlock) : TokenReader Opening := do
  let brace ← expect .closeBrace
  let stop := brace.span.stop
  let items := block.items.reverse
  match block.header with
  | .rule start selectors => return .complete (.rule selectors items ⟨start, stop⟩)
  | .consequence start condition =>
    if (← current).kind = .elseWord then
      let word ← advance
      let _ ← expect .openBrace
      return .opened ⟨.alternative start condition items word.span.start, []⟩
    else return .complete (.conditional condition items none ⟨start, stop⟩)
  | .alternative start condition body elseStart =>
    return .complete
      (.conditional condition body (some ⟨items, ⟨elseStart, stop⟩⟩) ⟨start, stop⟩)

def TokenStream.endsBlock (stream : TokenStream) : Bool :=
  stream.current.kind = .closeBrace || stream.atEnd

theorem advances_readBinding (grammar : Grammar) : Advances (readBinding grammar) :=
  (advances_expect (by decide)).bind fun _ =>
    (advances_expectFor _ (by decide)).steady.bind fun _ =>
      (advances_readExpr grammar _).steady.bind fun _ =>
        (advances_expect (by decide)).steady.bind fun _ => .pure _

theorem advances_readDeclaration (grammar : Grammar) : Advances (readDeclaration grammar) :=
  (advances_expect (by decide)).bind fun _ =>
    (advances_expect (by decide)).steady.bind fun _ =>
      (advances_readExpr grammar _).steady.bind fun _ =>
        (advances_expect (by decide)).steady.bind fun _ => .pure _

theorem advances_readRuleHeader : Advances readRuleHeader :=
  advances_readSelector.bind fun _ =>
    (steady_readWhile _ advances_readNextSelector).bind fun _ =>
      (advances_expect (by decide)).steady.bind fun _ => .pure _

theorem advances_readConditionalHeader (grammar : Grammar) :
    Advances (readConditionalHeader grammar) :=
  (advances_expect (by decide)).bind fun _ =>
    (advances_expectFor _ (by decide)).steady.bind fun _ =>
      (advances_readExpr grammar _).steady.bind fun _ =>
        (advances_expect (by decide)).steady.bind fun _ =>
          (advances_expect (by decide)).steady.bind fun _ => .pure _

theorem advances_readForm (grammar : Grammar) (form : StatementForm) :
    Advances (readForm grammar form) := by
  have hb := (advances_readBinding grammar).bind fun node => Steady.pure (Opening.complete node)
  have hd := (advances_readDeclaration grammar).bind fun node => Steady.pure (Opening.complete node)
  have hr := advances_readRuleHeader.bind fun block => Steady.pure (Opening.opened block)
  have hc := (advances_readConditionalHeader grammar).bind
    fun block => Steady.pure (Opening.opened block)
  cases form with
  | binding => exact hb
  | declaration => exact hd
  | rule => exact hr
  | conditional => exact hc
  | declarationOrRule =>
    refine Steady.get.bind_advances fun stream => ?_
    split
    · exact hd
    · exact hr

theorem advances_readOpening (grammar : Grammar) : Advances (readOpening grammar) := by
  refine steady_current.bind_advances fun token => ?_
  split
  · exact advances_readForm grammar _
  · exact (steady_misplaced _).bind_advances fun _ => .throw _

theorem advances_closeBlock (block : OpenBlock) : Advances (closeBlock block) := by
  refine (advances_expect (by decide)).bind fun brace => ?_
  cases block.header with
  | rule start selectors => exact .pure _
  | consequence start condition =>
    refine steady_current.bind fun token => ?_
    split
    · exact steady_advance.bind fun _ => (advances_expect (by decide)).steady.bind fun _ => .pure _
    · exact .pure _
  | alternative start condition body elseStart => exact .pure _

/-- Read on inside `block`, which stands in the blocks `outer`, until the
outermost of them is closed. -/
def readBlocks (grammar : Grammar) (block : OpenBlock) (outer : List OpenBlock) :
    TokenReader Node := fun stream =>
  if stream.endsBlock then
    match h : closeBlock block stream with
    | .error fault rest => .error fault rest
    | .ok (.opened other) rest =>
      have := advances_closeBlock block _ _ _ h
      readBlocks grammar other outer rest
    | .ok (.complete node) rest =>
      have := advances_closeBlock block _ _ _ h
      match outer with
      | [] => .ok node rest
      | parent :: outer => readBlocks grammar (parent.add node) outer rest
  else
    match h : readOpening grammar stream with
    | .error fault rest => .error fault rest
    | .ok (.opened inner) rest =>
      have := advances_readOpening grammar _ _ _ h
      readBlocks grammar inner (block :: outer) rest
    | .ok (.complete node) rest =>
      have := advances_readOpening grammar _ _ _ h
      readBlocks grammar (block.add node) outer rest
termination_by stream => stream.size

/-- Read the rest of a statement that has been started. -/
def Opening.finish (grammar : Grammar) : Opening → TokenReader Node
  | .complete node => return node
  | .opened block => readBlocks grammar block []

def readStatementOf (grammar : Grammar) (form : StatementForm) : TokenReader Node := do
  (← readForm grammar form).finish grammar

def readStatement (grammar : Grammar) : TokenReader Node := do
  (← readOpening grammar).finish grammar

theorem steady_readBlocks (grammar : Grammar) (block : OpenBlock) (outer : List OpenBlock) :
    Steady (readBlocks grammar block outer) := by
  intro stream
  induction hn : stream.size using Nat.strongRecOn generalizing stream block outer with
  | ind n ih =>
    subst hn
    intro node rest h
    rw [readBlocks] at h
    split at h
    · split at h
      · cases h
      · next hs =>
        have hlt := advances_closeBlock block _ _ _ hs
        exact Nat.le_of_lt (Nat.lt_of_le_of_lt (ih _ hlt _ _ _ rfl _ _ h) hlt)
      · next hs =>
        have hlt := advances_closeBlock block _ _ _ hs
        split at h
        · cases h
          exact Nat.le_of_lt hlt
        · exact Nat.le_of_lt (Nat.lt_of_le_of_lt (ih _ hlt _ _ _ rfl _ _ h) hlt)
    · split at h
      · cases h
      · next hs =>
        have hlt := advances_readOpening grammar _ _ _ hs
        exact Nat.le_of_lt (Nat.lt_of_le_of_lt (ih _ hlt _ _ _ rfl _ _ h) hlt)
      · next hs =>
        have hlt := advances_readOpening grammar _ _ _ hs
        exact Nat.le_of_lt (Nat.lt_of_le_of_lt (ih _ hlt _ _ _ rfl _ _ h) hlt)

theorem steady_finish (grammar : Grammar) (opening : Opening) :
    Steady (opening.finish grammar) := by
  cases opening with
  | complete node => exact .pure node
  | opened block => exact steady_readBlocks grammar block []

theorem advances_readStatement (grammar : Grammar) : Advances (readStatement grammar) :=
  (advances_readOpening grammar).bind fun _ => steady_finish grammar _

end Stylesheet
