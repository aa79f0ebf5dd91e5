import Stylesheet.Proofs.Climbing

/-! # Looking ahead

What a reader does depends on the tokens that it takes and on the one token
behind them: any stream that agrees on these has the same outcome. A closing
token is looked at but never taken, so nothing behind the first one plays a part.
-/

namespace Stylesheet

open TokenReader

def outcome {α : Type} : Except Fault α → TokenStream → EStateM.Result Fault TokenStream α
  | .ok a, rest => .ok a rest
  | .error fault, rest => .error fault rest

/-- At this stream, the outcome depends on the tokens that are taken and on the
one behind them only. -/
def LocalAt {α : Type} (reader : TokenReader α) (stream : TokenStream) : Prop :=
  ∃ (tokens : List Token) (rest : TokenStream) (result : Except Fault α),
    stream = rest.prepend tokens ∧
    ∀ other : TokenStream, other.current = rest.current →
      reader (other.prepend tokens) = outcome result other

def Local {α : Type} (reader : TokenReader α) : Prop := ∀ stream, LocalAt reader stream

section

variable {α β : Type} {reader reader' : TokenReader α} {next : α → TokenReader β}
  {stream : TokenStream} {token : Token}

namespace LocalAt

theorem pure (a : α) (stream : TokenStream) : LocalAt (pure a) stream :=
  ⟨[], stream, .ok a, rfl, fun _ _ => rfl⟩

theorem throw (fault : Fault) (stream : TokenStream) :
    LocalAt (throw fault : TokenReader α) stream :=
  ⟨[], stream, .error fault, rfl, fun _ _ => rfl⟩

theorem congr (h : LocalAt reader stream)
    (he : ∀ other : TokenStream, other.current = stream.current → reader' other = reader other) :
    LocalAt reader' stream := by
  obtain ⟨tokens, rest, result, rfl, hr⟩ := h
  refine ⟨tokens, rest, result, rfl, fun other ho => ?_⟩
  rw [he _ (TokenStream.current_prepend_congr tokens ho), hr other ho]

theorem bind (h : LocalAt reader stream)
    (hn : ∀ a rest, reader stream = .ok a rest → LocalAt (next a) rest) :
    LocalAt (reader >>= next) stream := by
  obtain ⟨tokens, rest, result, rfl, hr⟩ := h
  cases result with
  | error fault =>
    exact ⟨tokens, rest, .error fault, rfl, fun other ho => bind_of_error (hr other ho)⟩
  | ok a =>
    obtain ⟨later, rest, result, rfl, hr'⟩ := hn a rest (hr rest rfl)
    refine ⟨tokens ++ later, rest, result, by simp, fun other ho => ?_⟩
    have hc := TokenStream.current_prepend_congr later ho
    rw [TokenStream.prepend_append, bind_of_ok (hr _ hc), hr' other ho]

theorem current_bind {next : Token → TokenReader β} (h : LocalAt (next stream.current) stream) :
    LocalAt (current >>= next) stream := by
  refine h.congr fun other ho => ?_
  rw [bind_of_ok (current_run other), ho]

theorem cons (h : LocalAt reader' stream)
    (he : ∀ other : TokenStream, reader (other.cons token) = reader' other) :
    LocalAt reader (stream.cons token) := by
  obtain ⟨tokens, rest, result, rfl, hr⟩ := h
  refine ⟨token :: tokens, rest, result, rfl, fun other ho => ?_⟩
  rw [TokenStream.prepend_cons, he, hr other ho]

end LocalAt

namespace Local

theorem pure (a : α) : Local (pure a : TokenReader α) := fun stream => .pure a stream

theorem bind (h : Local reader) (hn : ∀ a, Local (next a)) : Local (reader >>= next) :=
  fun stream => (h stream).bind fun a rest _ => hn a rest

theorem current_bind {next : Token → TokenReader β} (h : ∀ token, Local (next token)) :
    Local (current >>= next) :=
  fun stream => .current_bind (h stream.current stream)

end Local

theorem localAt_advance (h : stream.current.kind ≠ .endOfInput) : LocalAt advance stream := by
  rw [TokenStream.eq_cons h]
  exact (LocalAt.pure stream.current _).cons fun other => rfl

theorem local_unexpected : Local unexpected := .current_bind fun _ => .pure _

theorem local_misplaced (message : String) : Local (misplaced message) :=
  .current_bind fun _ => .pure _

theorem local_expectOr {kind : TokenKind} (hk : kind ≠ .endOfInput) (fault : Fault) :
    Local (expectOr kind fault) := by
  intro stream
  refine .current_bind ?_
  split
  · next h => exact localAt_advance (h ▸ hk)
  · exact .throw fault stream

theorem local_expect {kind : TokenKind} (hk : kind ≠ .endOfInput) : Local (expect kind) :=
  local_unexpected.bind fun _ => local_expectOr hk _

theorem local_expectFor (message : String) {kind : TokenKind} (hk : kind ≠ .endOfInput) :
    Local (expectFor message kind) :=
  (local_misplaced message).bind fun _ => local_expectOr hk _

theorem local_readWhile {wanted : TokenStream → Bool} (advances : Advances reader)
    (hw : ∀ stream other : TokenStream, other.current = stream.current →
      wanted other = wanted stream)
    (h : ∀ stream, wanted stream = true → LocalAt reader stream) :
    Local (readWhile wanted reader advances) := by
  intro stream
  induction hn : stream.size using Nat.strongRecOn generalizing stream with
  | ind n ih =>
    subst hn
    by_cases ht : wanted stream = true
    · refine LocalAt.congr ?_ fun other ho => readWhile_of_wanted ((hw _ _ ho).trans ht)
      refine (h stream ht).bind fun a rest hr => ?_
      exact (ih _ (advances _ _ _ hr) rest rfl).bind fun as rest _ => .pure _ rest
    · have hf : wanted stream = false := by simpa using ht
      exact (LocalAt.pure [] stream).congr fun other ho => readWhile_of_not ((hw _ _ ho).trans hf)

end

theorem local_readOperand : Local (readOperand .standard) := by
  intro stream
  refine .current_bind ?_
  split
  · refine .current_bind ?_
    cases ho : stream.current.operand with
    | error cause => exact LocalAt.throw _ stream
    | ok e =>
      have hn : stream.current.kind ≠ .endOfInput := fun hk => by simp [Token.operand, hk] at ho
      exact (localAt_advance hn).bind fun _ rest _ => .pure _ rest
  · exact (local_misplaced _ stream).bind fun _ rest _ => .throw _ rest

theorem localAt_readStep {stream : TokenStream} {operator : Operator}
    (h : stream.current.kind = operator.kind) : LocalAt (readStep .standard) stream := by
  have hn : stream.current.kind ≠ .endOfInput := by
    rw [h]
    cases operator <;> decide
  refine .current_bind (LocalAt.bind ?_ fun _ rest _ => ?_)
  · rw [TokenStream.eq_cons hn]
    exact (LocalAt.pure operator _).cons fun other => readOperator_cons h other
  · exact (local_readOperand rest).bind fun _ rest _ => .pure _ rest

theorem local_readExpr : Local (readExpr .standard .lowest) := by
  refine local_readOperand.bind fun operand => Local.bind ?_ fun steps => .pure _
  refine local_readWhile _ (fun stream other h => by rw [h]) fun stream hw => ?_
  obtain ⟨operator, ho⟩ := lowest_lt_power_iff.mp (of_decide_eq_true hw)
  exact localAt_readStep ho

theorem local_readBinding : Local (readBinding .standard) :=
  (local_expect (by decide)).bind fun _ => (local_expectFor _ (by decide)).bind fun _ =>
    local_readExpr.bind fun _ => (local_expect (by decide)).bind fun _ => .pure _

theorem local_readConditionalHeader : Local (readConditionalHeader .standard) :=
  (local_expect (by decide)).bind fun _ => (local_expectFor _ (by decide)).bind fun _ =>
    local_readExpr.bind fun _ => (local_expect (by decide)).bind fun _ =>
      (local_expect (by decide)).bind fun _ => .pure _

theorem local_readSelector : Local readSelector := by
  intro stream
  refine .current_bind ?_
  split
  · next h =>
    have hs := Token.isOneOf_selectorKinds_iff.mp h
    exact (localAt_advance hs.kind_ne).bind fun _ rest _ => .pure _ rest
  · exact (local_misplaced _ stream).bind fun _ rest _ => .throw _ rest

theorem local_readMoreSelectors : Local readMoreSelectors := by
  refine local_readWhile _ (fun stream other h => by rw [h]) fun stream _ => ?_
  exact ((local_expect (by decide)).bind fun _ => local_readSelector) stream

theorem local_readDeclaration : Local (readDeclaration .standard) :=
  (local_expect (by decide)).bind fun _ => (local_expect (by decide)).bind fun _ =>
    local_readExpr.bind fun _ => (local_expect (by decide)).bind fun _ => .pure _

theorem local_readRuleHeader : Local readRuleHeader :=
  local_readSelector.bind fun _ => local_readMoreSelectors.bind fun _ =>
    (local_expect (by decide)).bind fun _ => .pure _

section Behind

variable {α β : Type} {reader : TokenReader α} {next : α → TokenReader β} {token : Token}

/-- Behind a token, the reader goes on as a local one. -/
def LocalBehind (token : Token) (reader : TokenReader α) : Prop :=
  ∃ later : TokenReader α, Local later ∧ ∀ rest : TokenStream, reader (rest.cons token) = later rest

theorem LocalBehind.bind (h : LocalBehind token reader) (hn : ∀ a, Local (next a)) :
    LocalBehind token (reader >>= next) := by
  obtain ⟨later, hl, he⟩ := h
  refine ⟨later >>= next, hl.bind hn, fun rest => ?_⟩
  cases hr : later rest with
  | ok a between => rw [bind_of_ok hr, bind_of_ok ((he rest).trans hr)]
  | error fault between => rw [bind_of_error hr, bind_of_error ((he rest).trans hr)]

theorem localBehind_readDeclaration (h : token.kind = .lowerName) :
    LocalBehind token (readDeclaration .standard) := by
  have hname : LocalBehind token (expect .lowerName) :=
    ⟨pure token, .pure token, fun rest => expect_cons h rest⟩
  exact hname.bind fun _ => (local_expect (by decide)).bind fun _ =>
    local_readExpr.bind fun _ => (local_expect (by decide)).bind fun _ => .pure _

theorem localBehind_readRuleHeader (h : token.IsSelector) : LocalBehind token readRuleHeader := by
  have hfirst : LocalBehind token readSelector :=
    ⟨pure token.selector, .pure _, fun rest => readSelector_cons h rest⟩
  exact hfirst.bind fun _ => local_readMoreSelectors.bind fun _ =>
    (local_expect (by decide)).bind fun _ => .pure _

end Behind

/-- The token behind a name decides between a declaration and a rule, and both go
on to that token. -/
theorem localAt_declarationOrRule {stream : TokenStream} (h : stream.current.kind = .lowerName) :
    LocalAt (readForm .standard .declarationOrRule) stream := by
  have hn : stream.current.kind ≠ .endOfInput := by simp [h]
  obtain ⟨declaration, hd, hde⟩ := (localBehind_readDeclaration h).bind fun node =>
    Local.pure (Opening.complete node)
  obtain ⟨rule, hr, hre⟩ := (localBehind_readRuleHeader (.inr (.inr (.inr h)))).bind fun block =>
    Local.pure (Opening.opened block)
  have hl : Local (current >>= fun token => if token.kind = .colon then declaration else rule) := by
    refine .current_bind fun token => ?_
    split
    · exact hd
    · exact hr
  rw [TokenStream.eq_cons hn]
  refine (hl _).cons fun other => ?_
  have hg : (get : TokenReader TokenStream) (other.cons stream.current) =
      .ok (other.cons stream.current) (other.cons stream.current) := rfl
  rw [bind_of_ok (current_run other), readForm, bind_of_ok hg, TokenStream.following_cons]
  split
  · exact hde other
  · exact hre other

theorem Grammar.eq_lowerName_of_form? {kind : TokenKind}
    (h : Grammar.standard.form? kind = some .declarationOrRule) : kind = .lowerName := by
  cases kind <;> first | rfl | cases h

theorem local_readOpening : Local (readOpening .standard) := by
  intro stream
  refine .current_bind ?_
  cases hf : Grammar.standard.form? stream.current.kind with
  | none => exact (local_misplaced _ stream).bind fun _ rest _ => .throw _ rest
  | some form =>
    cases form with
    | binding => exact (local_readBinding.bind fun _ => .pure _) stream
    | declaration => exact (local_readDeclaration.bind fun _ => .pure _) stream
    | rule => exact (local_readRuleHeader.bind fun _ => .pure _) stream
    | conditional => exact (local_readConditionalHeader.bind fun _ => .pure _) stream
    | declarationOrRule => exact localAt_declarationOrRule (Grammar.eq_lowerName_of_form? hf)

theorem local_closeBlock (block : OpenBlock) : Local (closeBlock block) := by
  refine (local_expect (by decide)).bind fun brace => ?_
  cases block.header with
  | rule start selectors => exact .pure _
  | alternative start condition body elseStart => exact .pure _
  | consequence start condition =>
    intro stream
    refine .current_bind ?_
    split
    · next h =>
      refine (localAt_advance (by simp [h])).bind fun _ rest _ => ?_
      exact (local_expect (by decide) rest).bind fun _ rest _ => .pure _ rest
    · exact .pure _ stream

theorem local_readBlocks (block : OpenBlock) : Local (readBlocks .standard block []) := by
  intro stream
  induction hn : stream.size using Nat.strongRecOn generalizing stream block with
  | ind n ih =>
    subst hn
    have hfinish : ∀ opening (rest : TokenStream), rest.size < stream.size →
        LocalAt (Opening.finish .standard opening) rest := by
      intro opening rest hlt
      cases opening with
      | complete node => exact .pure node rest
      | opened inner => exact ih _ hlt inner rest rfl
    by_cases he : stream.endsBlock = true
    · refine LocalAt.congr ?_ fun other ho => readBlocks_nil_of_ends ?_
      · exact (local_closeBlock block stream).bind fun opening rest hc =>
          hfinish opening rest (advances_closeBlock block _ _ _ hc)
      · rwa [TokenStream.endsBlock, TokenStream.atEnd, ho]
    · have he : stream.endsBlock = false := by simpa using he
      refine LocalAt.congr ?_ fun other ho => readBlocks_nil_of_not_ends ?_
      · refine LocalAt.bind ?_ fun node rest hs =>
          ih _ (advances_readStatement _ _ _ _ hs) (block.add node) rest rfl
        exact (local_readOpening stream).bind fun opening rest ho =>
          hfinish opening rest (advances_readOpening _ _ _ _ ho)
      · rwa [TokenStream.endsBlock, TokenStream.atEnd, ho]

theorem local_readStatement : Local (readStatement .standard) := by
  refine local_readOpening.bind fun opening => ?_
  cases opening with
  | complete node => exact .pure node
  | opened block => exact local_readBlocks block

theorem local_readStatements : Local (readStatements .standard) := by
  refine local_readWhile _ (fun stream other h => ?_) fun stream _ => local_readStatement stream
  rw [TokenStream.atEnd, TokenStream.atEnd, h]

theorem local_readDocument (file : String) : Local (readDocument .standard file) :=
  local_readStatements.bind fun _ => .current_bind fun _ => .pure _

theorem parseTokens_of_outcome {file : String} {tokens : List Token} {result : Except Fault Node}
    {rest : TokenStream}
    (h : readDocument .standard file (.ofTokens file tokens) = outcome result rest) :
    parseTokens file tokens = result := by
  rw [parseTokens, h]
  cases result <;> rfl

namespace TokenStream

def closed (ending : Token) : TokenStream := ⟨[], ending.text, ending.span⟩

theorem current_closed {ending : Token} (h : ending.kind = .endOfInput) :
    (closed ending).current = ending := by
  obtain ⟨kind, text, span⟩ := ending
  subst h
  rfl

theorem ofTokens_concat (file : String) {ending : Token} (h : ending.kind = .endOfInput)
    (before : List Token) :
    ofTokens file (before ++ [ending]) = (closed ending).prepend before := by
  simp [ofTokens, h, closed, prepend]

theorem exists_ofTokens (file : String) (before : List Token) (ending : Token)
    {rest : List Token} (h : rest ≠ []) :
    ∃ behind, ofTokens file (before ++ ending :: rest) = (cons ending behind).prepend before := by
  obtain ⟨later, last, rfl⟩ : ∃ later last, rest = later ++ [last] :=
    ⟨_, _, (List.dropLast_concat_getLast h).symm⟩
  have he : before ++ ending :: (later ++ [last]) = (before ++ ending :: later) ++ [last] := by simp
  by_cases hk : last.kind = .endOfInput
  · exact ⟨(closed last).prepend later, by rw [he, ofTokens_concat file hk, prepend_append]; rfl⟩
  · rw [he, ofTokens, List.getLast?_concat]
    simp only [if_neg hk]
    exact ⟨⟨later ++ [last], "EOF", ⟨last.span.stop, last.span.stop⟩⟩, by rw [← he]; rfl⟩

theorem eq_prepend_of_prepend_eq {stream left : TokenStream} {before tokens : List Token}
    (hs : stream.pending = []) (h : stream.prepend before = left.prepend tokens) :
    before = tokens ++ left.pending ∧ left = stream.prepend left.pending := by
  obtain ⟨pending, endText, endSpan⟩ := left
  simp only [prepend, hs, List.append_nil, mk.injEq] at h ⊢
  obtain ⟨hb, rfl, rfl⟩ := h
  exact ⟨hb, trivial, rfl, rfl⟩

end TokenStream

/-- Nothing behind a closing token has a part in the outcome. -/
theorem parseTokens_append_cons (file : String) {ending : Token}
    (h : ending.kind = .endOfInput) (before rest : List Token) :
    parseTokens file (before ++ ending :: rest) = parseTokens file (before ++ [ending]) := by
  by_cases hr : rest = []
  · rw [hr]
  · obtain ⟨behind, hs⟩ := TokenStream.exists_ofTokens file before ending hr
    obtain ⟨tokens, left, result, hp, hl⟩ :=
      local_readDocument file ((TokenStream.closed ending).prepend before)
    obtain ⟨hb, hleft⟩ := TokenStream.eq_prepend_of_prepend_eq rfl hp
    -- What is left of the shorter stream starts with the same token in the longer one.
    have hc : ((behind.cons ending).prepend left.pending).current = left.current := by
      have he : (behind.cons ending).current = (TokenStream.closed ending).current :=
        (TokenStream.current_closed h).symm
      rw [TokenStream.current_prepend_congr left.pending he, ← hleft]
    have hlong := hl _ hc
    rw [← TokenStream.prepend_append, ← hb, ← hs] at hlong
    have hshort := hl left rfl
    rw [← hp, ← TokenStream.ofTokens_concat file h] at hshort
    rw [parseTokens_of_outcome hlong, parseTokens_of_outcome hshort]

end Stylesheet
