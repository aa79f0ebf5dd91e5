import Stylesheet.Proofs.Limits

/-! # The routines of the parser

The parser is a program of routines that call each other. The script of a routine says
how it looks at the stream, which tokens it takes and which routines it calls. Loops are
routines that call themselves. The readers compute what the scripts say, so what is
shown of the scripts holds of the readers.
-/

namespace Stylesheet

open TokenReader

/-- A routine with what it is called with, indexed by what it returns. -/
inductive Routine : Type → Type where
  | expect (kind : TokenKind) : Routine Token
  | expectFor (message : String) (kind : TokenKind) : Routine Token
  | primary : Routine Expr
  | expr (limit : Precedence) : Routine Expr
  /-- The loop over the operators behind an operand. -/
  | operators (limit : Precedence) (left : Expr) : Routine Expr
  | operation (left : Expr) (limit : Precedence) : Routine Expr
  | selector : Routine Selector
  /-- The loop over the selectors behind the first one. -/
  | selectors : Routine (List Selector)
  /-- A block in braces, with the end of the closing one. -/
  | block : Routine (List Node × Position)
  /-- The loop over the items of a block. -/
  | items : Routine (List Node)
  | form (form : StatementForm) : Routine Node
  | statement : Routine Node
  /-- The loop over the statements of a document. -/
  | statements : Routine (List Node)
  | document (file : String) : Routine Node

/-- What a routine does until it is done or fails. -/
inductive Script (α : Type) : Type 1 where
  | done (a : α)
  | fail (fault : Fault)
  | look (next : TokenStream → Script α)
  | take (next : Token → Script α)
  | call {β : Type} (routine : Routine β) (next : β → Script α)

namespace Script

def token (kind : TokenKind) (cause : Token → Cause) : Script Token :=
  .look fun stream =>
    if stream.current.kind = kind then .take .done
    else .fail ⟨cause stream.current, stream.current.span.start⟩

def misplaced {α : Type} (message : String) : Script α :=
  .look fun stream =>
    .fail ⟨.misplaced stream.current.text message, stream.current.span.start⟩

end Script

def Routine.script : {α : Type} → Routine α → Script α
  | _, expect kind => .token kind fun token => .unexpected token.text
  | _, expectFor message kind => .token kind fun token => .misplaced token.text message
  | _, primary =>
    .look fun stream =>
      match stream.current.operand with
      | .ok e => .take fun _ => .done e
      | .error cause => .fail ⟨cause, stream.current.span.start⟩
  | _, expr limit =>
    .look fun stream =>
      if Grammar.standard.isOperand stream.current.kind then
        .call primary fun operand => .call (operators limit operand) .done
      else .misplaced "expected an expression"
  | _, operators limit left =>
    .look fun stream =>
      let power := Grammar.standard.power stream.current.kind
      if limit < power then
        .call (operation left power) fun joined => .call (operators limit joined) .done
      else .done left
  | _, operation left limit =>
    .take fun token =>
      match token.operator? with
      | some operator => .call (expr limit) fun right => .done (.join operator left right)
      | none => .fail ⟨.unexpected token.text, token.span.start⟩
  | _, selector =>
    .look fun stream =>
      if stream.current.isOneOf selectorKinds then .take fun token => .done token.selector
      else .misplaced "expected a selector"
  | _, selectors =>
    .look fun stream =>
      if stream.current.kind = .comma then
        .take fun _ => .call selector fun first => .call selectors fun more =>
          .done (first :: more)
      else .done []
  | _, block =>
    .call (expect .openBrace) fun _ => .call items fun items =>
      .call (expect .closeBrace) fun brace => .done (items, brace.span.stop)
  | _, items =>
    .look fun stream =>
      if stream.endsBlock then .done []
      else .call statement fun first => .call items fun more => .done (first :: more)
  | _, form .binding =>
    .call (expect .capitalName) fun name =>
      .call (expectFor "expected `:=` after variable name" .assign) fun _ =>
        .call (expr .lowest) fun value => .call (expect .semicolon) fun close =>
          .done (.binding name.text value ⟨name.span.start, close.span.stop⟩)
  | _, form .declaration =>
    .call (expect .lowerName) fun property => .call (expect .colon) fun _ =>
      .call (expr .lowest) fun value => .call (expect .semicolon) fun close =>
        .done (.declaration property.text value ⟨property.span.start, close.span.stop⟩)
  | _, form .declarationOrRule =>
    .look fun stream =>
      if stream.following.kind = .colon then .call (form .declaration) .done
      else .call (form .rule) .done
  | _, form .rule =>
    .call selector fun first => .call selectors fun more => .call block fun body =>
      .done (.rule (first :: more) body.1 ⟨first.span.start, body.2⟩)
  | _, form .conditional =>
    .call (expect .ifWord) fun word =>
      .call (expectFor "expected `[` after `if`" .openBracket) fun _ =>
        .call (expr .lowest) fun condition => .call (expect .closeBracket) fun _ =>
          .call block fun body => .look fun stream =>
            if stream.current.kind = .elseWord then
              .take fun other => .call block fun alternative =>
                .done (.conditional condition body.1
                  (some ⟨alternative.1, ⟨other.span.start, alternative.2⟩⟩)
                  ⟨word.span.start, alternative.2⟩)
            else .done (.conditional condition body.1 none ⟨word.span.start, body.2⟩)
  | _, statement =>
    .look fun stream =>
      match Grammar.standard.form? stream.current.kind with
      | some kind => .call (form kind) .done
      | none => .misplaced "expected a variable binding, rule, declaration or if clause"
  | _, statements =>
    .look fun stream =>
      if stream.atEnd then .done []
      else .call statement fun first => .call statements fun more => .done (first :: more)
  | _, document file =>
    .call statements fun children => .look fun stream =>
      .done (.document children ⟨⟨0, file⟩, stream.current.span.start⟩)

def readItems (grammar : Grammar) : TokenReader (List Node) :=
  readWhile (fun stream => !stream.endsBlock) (readStatement grammar)
    (advances_readStatement grammar)

/-- `{ items }`, with the end of the closing brace. -/
def readBlock (grammar : Grammar) : TokenReader (List Node × Position) := do
  let _ ← expect .openBrace
  let items ← readItems grammar
  let brace ← expect .closeBrace
  return (items, brace.span.stop)

def Routine.read : {α : Type} → Routine α → TokenReader α
  | _, expect kind => TokenReader.expect kind
  | _, expectFor message kind => TokenReader.expectFor message kind
  | _, primary => readPrimary
  | _, expr limit => readExpr .standard limit
  | _, operators limit left => readBehind .standard limit left
  | _, operation left limit => readOperation .standard left limit
  | _, selector => readSelector
  | _, selectors => readMoreSelectors
  | _, block => readBlock .standard
  | _, items => readItems .standard
  | _, form kind => readStatementOf .standard kind
  | _, statement => readStatement .standard
  | _, statements => readStatements .standard
  | _, document file => readDocument .standard file

/-- What a script computes when the routines it calls compute what their readers do. -/
def Script.run {α : Type} : Script α → TokenReader α
  | done a => pure a
  | fail fault => throw fault
  | look next => get >>= fun stream => (next stream).run
  | take next => advance >>= fun token => (next token).run
  | call routine next => routine.read >>= fun b => (next b).run

section Blocks

variable (grammar : Grammar)

/-- Reading on in a block is reading its items and then closing it. -/
theorem readBlocks_eq_readItems (block : OpenBlock) (stream : TokenStream) :
    readBlocks grammar block [] stream =
      (do
        let items ← readItems grammar
        let opening ← closeBlock ⟨block.header, items.reverse ++ block.items⟩
        opening.finish grammar : TokenReader Node) stream := by
  unfold readItems
  induction hn : stream.size using Nat.strongRecOn generalizing stream block with
  | ind n ih =>
    subst hn
    by_cases he : stream.endsBlock = true
    · rw [readBlocks_nil_of_ends he, bind_of_ok (readWhile_of_not (by simp [he]))]
      rfl
    · have he : stream.endsBlock = false := by simpa using he
      rw [readBlocks_nil_of_not_ends he, bind_congr_left (readWhile_of_wanted (by simp [he])),
        bind_assoc]
      refine bind_congr_of_ok fun node rest hr => ?_
      rw [ih _ (advances_readStatement grammar _ _ _ hr) (block.add node) rest rfl]
      simp [OpenBlock.add]

theorem readBlocks_nil (header : Header) :
    readBlocks grammar ⟨header, []⟩ [] =
      readItems grammar >>= fun items =>
        closeBlock ⟨header, items.reverse⟩ >>= Opening.finish grammar := by
  funext stream
  rw [readBlocks_eq_readItems]
  simp only [List.append_nil]

theorem readStatementOf_rule :
    readStatementOf grammar .rule = do
      let first ← readSelector
      let more ← readMoreSelectors
      let body ← readBlock grammar
      return .rule (first :: more) body.1 ⟨first.span.start, body.2⟩ := by
  simp only [readStatementOf, readForm, readRuleHeader, readBlock, bind_assoc, pure_bind,
    Opening.finish, readBlocks_nil, closeBlock, List.reverse_reverse]

theorem readStatementOf_conditional :
    readStatementOf grammar .conditional = do
      let word ← expect .ifWord
      let _ ← expectFor "expected `[` after `if`" .openBracket
      let condition ← readExpr grammar .lowest
      let _ ← expect .closeBracket
      let body ← readBlock grammar
      if (← get).current.kind = .elseWord then
        let other ← advance
        let alternative ← readBlock grammar
        return .conditional condition body.1
          (some ⟨alternative.1, ⟨other.span.start, alternative.2⟩⟩)
          ⟨word.span.start, alternative.2⟩
      else return .conditional condition body.1 none ⟨word.span.start, body.2⟩ := by
  simp only [readStatementOf, readForm, readConditionalHeader, readBlock, bind_assoc, pure_bind,
    Opening.finish, readBlocks_nil, closeBlock, List.reverse_reverse, current]
  refine bind_congr fun word => bind_congr fun _ => bind_congr fun condition =>
    bind_congr fun _ => bind_congr fun _ => bind_congr fun items => bind_congr fun brace =>
      bind_congr fun stream => ?_
  split
  · simp only [bind_assoc, pure_bind, Opening.finish, readBlocks_nil, closeBlock,
      List.reverse_reverse]
  · rfl

end Blocks

theorem get_bind_run {α : Type} (next : TokenStream → TokenReader α) (stream : TokenStream) :
    (get >>= next) stream = next stream stream := rfl

theorem TokenReader.expect_of_kind {kind : TokenKind} {stream : TokenStream}
    (h : stream.current.kind = kind) : expect kind stream = advance stream := by
  change expectOr kind _ stream = _
  rw [expectOr, bind_of_ok (current_run stream), if_pos h]

theorem readNextSelector_of_comma {stream : TokenStream} (h : stream.current.kind = .comma) :
    readNextSelector stream = (advance >>= fun _ => readSelector) stream :=
  bind_congr_left (expect_of_kind h) _

namespace Script

theorem run_token (kind : TokenKind) (cause : Token → Cause) (stream : TokenStream) :
    (token kind cause).run stream =
      expectOr kind ⟨cause stream.current, stream.current.span.start⟩ stream := by
  rw [token, run, get_bind_run, expectOr, bind_of_ok (current_run stream)]
  split <;> rfl

end Script

namespace Routine

theorem run_form (kind : StatementForm) (stream : TokenStream) :
    (form kind).script.run stream = readStatementOf .standard kind stream := by
  cases kind with
  | binding =>
    simp only [readStatementOf, readForm, readBinding, bind_assoc, pure_bind]
    rfl
  | declaration =>
    simp only [readStatementOf, readForm, readDeclaration, bind_assoc, pure_bind]
    rfl
  | rule =>
    rw [readStatementOf_rule]
    rfl
  | conditional =>
    rw [readStatementOf_conditional]
    simp only [script, Script.run]
    refine bind_congr_of_ok fun _ _ _ => bind_congr_of_ok fun _ _ _ => bind_congr_of_ok
      fun _ _ _ => bind_congr_of_ok fun _ _ _ => bind_congr_of_ok fun _ _ _ => ?_
    rw [get_bind_run, get_bind_run]
    split <;> rfl
  | declarationOrRule =>
    simp only [script, Script.run, get_bind_run]
    rw [readStatementOf, readForm, bind_assoc, get_bind_run]
    split
    · simp only [Script.run, bind_pure]
      rfl
    · simp only [Script.run, bind_pure]
      rfl

/-- The reader of a routine computes what the script says. -/
theorem run_script {α : Type} (routine : Routine α) (stream : TokenStream) :
    routine.script.run stream = routine.read stream := by
  cases routine with
  | expect kind =>
    rw [script, Script.run_token]
    rfl
  | expectFor message kind =>
    rw [script, Script.run_token]
    rfl
  | primary =>
    rw [script, Script.run, get_bind_run, read, readPrimary, bind_of_ok (current_run stream)]
    cases stream.current.operand <;> rfl
  | expr limit =>
    rw [script, Script.run, get_bind_run, read, readExpr_eq_readBehind, readOperand, bind_assoc,
      bind_of_ok (current_run stream)]
    split
    · simp only [Script.run, bind_pure]
      rfl
    · rfl
  | operators limit left =>
    rw [script, Script.run, get_bind_run, read]
    by_cases h : limit < Grammar.standard.power stream.current.kind
    · rw [if_pos h, readBehind_of_lt h]
      simp only [Script.run, bind_pure]
      rfl
    · rw [if_neg h, readBehind_of_not h]
      rfl
  | operation left limit =>
    rw [script, Script.run, read, readOperation, readOperator, bind_assoc]
    refine bind_congr_of_ok fun token rest _ => ?_
    cases token.operator? <;> rfl
  | selector =>
    rw [script, Script.run, get_bind_run, read, readSelector, bind_of_ok (current_run stream)]
    split <;> rfl
  | selectors =>
    rw [script, Script.run, get_bind_run, read, readMoreSelectors]
    by_cases h : stream.current.kind = .comma
    · rw [if_pos h, readWhile_of_wanted (decide_eq_true h),
        bind_congr_left (readNextSelector_of_comma h), bind_assoc]
      rfl
    · rw [if_neg h, readWhile_of_not (decide_eq_false h)]
      rfl
  | block => rfl
  | items =>
    rw [script, Script.run, get_bind_run, read, readItems]
    cases h : stream.endsBlock with
    | true =>
      rw [readWhile_of_not (by simp [h])]
      rfl
    | false =>
      rw [readWhile_of_wanted (by simp [h])]
      rfl
  | form kind => exact run_form kind stream
  | statement =>
    rw [script, Script.run, get_bind_run, read, readStatement, readOpening, bind_assoc,
      bind_of_ok (current_run stream)]
    cases Grammar.standard.form? stream.current.kind with
    | some kind =>
      simp only [Script.run, bind_pure]
      rfl
    | none => rfl
  | statements =>
    rw [script, Script.run, get_bind_run, read, readStatements]
    cases h : stream.atEnd with
    | true =>
      rw [readWhile_of_not (by simp [h])]
      rfl
    | false =>
      rw [readWhile_of_wanted (by simp [h])]
      rfl
  | document file => rfl

end Routine

end Stylesheet
