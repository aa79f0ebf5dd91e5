import Stylesheet.Proofs.Lookahead

/-! # Parsing is derivation

Reading accepts exactly the token lists that the grammar derives a document
from, and gives that document. Statements are followed from the tokens that open
them to the tokens that complete their blocks.
-/

namespace Stylesheet

open TokenReader

namespace Derives

/-- The tokens that start a statement: all of it, or up to the brace of its first
block. -/
inductive Opens : List Token → Opening → Prop where

  | binding {name assign stop : Token} {tokens : List Token} {value : Expr} :
      name.kind = .capitalName → assign.kind = .assign → Sum tokens value →
      stop.kind = .semicolon →
      Opens (name :: assign :: tokens ++ [stop])
        (.complete (.binding name.text value ⟨name.span.start, stop.span.stop⟩))

  | declaration {property colon stop : Token} {tokens : List Token} {value : Expr} :
      property.kind = .lowerName → colon.kind = .colon → Sum tokens value →
      stop.kind = .semicolon →
      Opens (property :: colon :: tokens ++ [stop])
        (.complete (.declaration property.text value ⟨property.span.start, stop.span.stop⟩))

  | rule {first opening : Token} {tokens : List Token} {selectors : List Selector} :
      first.IsSelector → MoreSelectors tokens selectors → opening.kind = .openBrace →
      Opens (first :: tokens ++ [opening])
        (.opened ⟨.rule first.span.start (first.selector :: selectors), []⟩)

  | conditional {word left right opening : Token} {tokens : List Token} {condition : Expr} :
      word.kind = .ifWord → left.kind = .openBracket → Sum tokens condition →
      right.kind = .closeBracket → opening.kind = .openBrace →
      Opens (word :: left :: tokens ++ [right, opening])
        (.opened ⟨.consequence word.span.start condition, []⟩)

/-- The tokens that complete an open block, and the node they make of it. -/
inductive Completes : OpenBlock → List Token → Node → Prop where

  | rule {closing : Token} {inner : List Token} {items before : List Node} {start : Position}
      {selectors : List Selector} : Items inner items → closing.kind = .closeBrace →
      Completes ⟨.rule start selectors, before⟩ (inner ++ [closing])
        (.rule selectors (before.reverse ++ items) ⟨start, closing.span.stop⟩)

  | consequence {closing : Token} {inner : List Token} {items before : List Node}
      {start : Position} {condition : Expr} : Items inner items → closing.kind = .closeBrace →
      Completes ⟨.consequence start condition, before⟩ (inner ++ [closing])
        (.conditional condition (before.reverse ++ items) none ⟨start, closing.span.stop⟩)

  | otherwise {closing otherwise opening closing' : Token} {inner inner' : List Token}
      {items items' before : List Node} {start : Position} {condition : Expr} :
      Items inner items → closing.kind = .closeBrace → otherwise.kind = .elseWord →
      opening.kind = .openBrace → Items inner' items' → closing'.kind = .closeBrace →
      Completes ⟨.consequence start condition, before⟩
        (inner ++ closing :: otherwise :: opening :: (inner' ++ [closing']))
        (.conditional condition (before.reverse ++ items)
          (some ⟨items', ⟨otherwise.span.start, closing'.span.stop⟩⟩)
          ⟨start, closing'.span.stop⟩)

  | alternative {closing : Token} {inner : List Token} {items before body : List Node}
      {start elseStart : Position} {condition : Expr} : Items inner items →
      closing.kind = .closeBrace →
      Completes ⟨.alternative start condition body elseStart, before⟩ (inner ++ [closing])
        (.conditional condition body
          (some ⟨before.reverse ++ items, ⟨elseStart, closing.span.stop⟩⟩)
          ⟨start, closing.span.stop⟩)

variable {tokens later : List Token} {items more : List Node} {node : Node} {block : OpenBlock}

theorem Items.append (h : Items tokens items) (hm : Items later more) :
    Items (tokens ++ later) (items ++ more) := by
  induction h with
  | nil => exact hm
  | binding hn ha hs hc _ ih => simpa using Items.binding hn ha hs hc ih
  | declaration hn hk hs hc _ ih => simpa using Items.declaration hn hk hs hc ih
  | rule hf hs ho hb hc _ _ ih => simpa using Items.rule hf hs ho hb hc ih
  | conditional hw hl hs hr ho hb hc _ _ ih =>
    simpa using Items.conditional hw hl hs hr ho hb hc ih
  | alternative hw hl hs hr ho hb hc he ho' hb' hc' _ _ _ ih =>
    simpa using Items.alternative hw hl hs hr ho hb hc he ho' hb' hc' ih

theorem Items.completes (hi : Items tokens [node]) {outer : Node}
    (h : Completes (block.add node) later outer) : Completes block (tokens ++ later) outer := by
  obtain ⟨header, before⟩ := block
  generalize hb : OpenBlock.add ⟨header, before⟩ node = extended at h
  cases h with
  | rule hm hc =>
    cases hb
    simpa using Completes.rule (hi.append hm) hc
  | consequence hm hc =>
    cases hb
    simpa using Completes.consequence (hi.append hm) hc
  | otherwise hm hc he ho hm' hc' =>
    cases hb
    simpa using Completes.otherwise (hi.append hm) hc he ho hm' hc'
  | alternative hm hc =>
    cases hb
    simpa using Completes.alternative (hi.append hm) hc

/-- The tokens that finish a statement that has been started. -/
inductive Finishes : Opening → List Token → Node → Prop where

  | complete {node : Node} : Finishes (.complete node) [] node

  | opened {block : OpenBlock} {tokens : List Token} {node : Node} :
      Completes block tokens node → Finishes (.opened block) tokens node

/-- A statement that is started and finished is an item. -/
theorem Opens.items_of_finishes {opening : Opening} (h : Opens tokens opening)
    (hf : Finishes opening later node) : Items (tokens ++ later) [node] := by
  cases h with
  | binding hn ha hs hc =>
    cases hf
    simpa using Items.binding hn ha hs hc .nil
  | declaration hn hk hs hc =>
    cases hf
    simpa using Items.declaration hn hk hs hc .nil
  | rule hf' hs ho =>
    obtain ⟨⟩ | ⟨hc⟩ := hf
    cases hc with
    | rule hb hc => simpa using Items.rule hf' hs ho hb hc .nil
  | conditional hw hl hs hr ho =>
    obtain ⟨⟩ | ⟨hc⟩ := hf
    cases hc with
    | consequence hb hc => simpa using Items.conditional hw hl hs hr ho hb hc .nil
    | otherwise hb hc he ho' hb' hc' =>
      simpa using Items.alternative hw hl hs hr ho hb hc he ho' hb' hc' .nil

theorem Primary.kind_ne {token : Token} {e : Expr} (h : Primary token e) :
    token.kind ≠ .endOfInput := by
  cases h with
  | color h | yes h | no h | reference h => simp [h]
  | @quantity dimension _ _ _ h =>
    rw [h]
    cases dimension <;> decide

theorem Product.kind_ne {e : Expr} (h : Product tokens e) :
    ∀ token ∈ tokens, token.kind ≠ .endOfInput := by
  induction h with
  | primary h => simpa using h.kind_ne
  | times _ hs h ih => simp_all [h.kind_ne, or_imp]

theorem Sum.kind_ne {e : Expr} (h : Sum tokens e) :
    ∀ token ∈ tokens, token.kind ≠ .endOfInput := by
  induction h with
  | product h => exact h.kind_ne
  | plus _ hs h ih | minus _ hs h ih =>
    have hk := h.kind_ne
    simp_all [or_imp]

theorem MoreSelectors.kind_ne {selectors : List Selector} (h : MoreSelectors tokens selectors) :
    ∀ token ∈ tokens, token.kind ≠ .endOfInput := by
  induction h with
  | nil => simp
  | cons hc hs _ ih => simp_all [hs.kind_ne]

theorem Items.kind_ne (h : Items tokens items) : ∀ token ∈ tokens, token.kind ≠ .endOfInput := by
  induction h with
  | nil => simp
  | binding hn ha hs hc _ ih | declaration hn ha hs hc _ ih =>
    have hk := hs.kind_ne
    simp_all [or_imp]
  | rule hf hs ho _ hc _ ih ih' =>
    have hk := hs.kind_ne
    simp_all [or_imp, hf.kind_ne]
  | conditional hw hl hs hr ho _ hc _ ih ih' =>
    have hk := hs.kind_ne
    simp_all [or_imp]
  | alternative hw hl hs hr ho _ hc he ho' _ hc' _ ih ih' ih'' =>
    have hk := hs.kind_ne
    simp_all [or_imp]

end Derives

open Derives

section Openings

variable {stream rest : TokenStream} {tokens : List Token} {opening : Opening}

theorem endsExpr_cons_of_semicolon {token : Token} (h : token.kind = .semicolon)
    (rest : TokenStream) : (rest.cons token).EndsExpr := by
  intro operator
  rw [TokenStream.current_cons, h]
  cases operator <;> decide

theorem endsExpr_cons_of_closeBracket {token : Token} (h : token.kind = .closeBracket)
    (rest : TokenStream) : (rest.cons token).EndsExpr := by
  intro operator
  rw [TokenStream.current_cons, h]
  cases operator <;> decide

theorem readMoreSelectors_of {selectors : List Selector} (h : MoreSelectors tokens selectors)
    (hr : rest.current.kind ≠ .comma) :
    readMoreSelectors (rest.prepend tokens) = .ok selectors rest := by
  induction h with
  | nil => exact readWhile_of_not (decide_eq_false hr)
  | @cons comma token tokens selectors hc ht _ ih =>
    refine readWhile_cons (decide_eq_true hc) ?_ ih
    rw [TokenStream.prepend_cons, readNextSelector, bind_of_ok (expect_cons hc _),
      TokenStream.prepend_cons, readSelector_cons ht]

theorem moreSelectors_of_read {selectors : List Selector}
    (h : readMoreSelectors stream = .ok selectors rest) :
    ∃ tokens, stream = rest.prepend tokens ∧ MoreSelectors tokens selectors := by
  refine (readWhile_sound (R := MoreSelectors) .nil ?_ h).2
  intro stream selector between _ hr
  obtain ⟨comma, _, hc, hs⟩ := bind_eq_ok.mp hr
  obtain ⟨hk, rfl⟩ := eq_cons_of_expect (by decide) hc
  obtain ⟨token, ht, rfl, rfl⟩ := eq_cons_of_readSelector hs
  exact ⟨[comma, token], rfl, fun hm => .cons hk ht hm⟩

theorem current_ne_colon_of_moreSelectors {selectors : List Selector}
    (h : MoreSelectors tokens selectors) (hr : rest.current.kind ≠ .colon) :
    (rest.prepend tokens).current.kind ≠ .colon := by
  cases h with
  | nil => exact hr
  | cons hc _ _ => simp [hc]

theorem readBinding_of {name assign stop : Token} {value : Expr} (hn : name.kind = .capitalName)
    (ha : assign.kind = .assign) (hs : Sum tokens value) (hc : stop.kind = .semicolon)
    (rest : TokenStream) :
    readBinding .standard ((((rest.cons stop).prepend tokens).cons assign).cons name) =
      .ok (.binding name.text value ⟨name.span.start, stop.span.stop⟩) rest := by
  have he := endsExpr_cons_of_semicolon hc rest
  rw [readBinding, bind_of_ok (expect_cons hn _), bind_of_ok (expectFor_cons _ ha _),
    bind_of_ok (readExpr_of_sum hs he), bind_of_ok (expect_cons hc _)]
  rfl

theorem opens_of_readBinding {node : Node} (h : readBinding .standard stream = .ok node rest) :
    ∃ tokens, stream = rest.prepend tokens ∧ Opens tokens (.complete node) := by
  obtain ⟨name, _, hn, h⟩ := bind_eq_ok.mp h
  obtain ⟨assign, _, ha, h⟩ := bind_eq_ok.mp h
  obtain ⟨value, _, hv, h⟩ := bind_eq_ok.mp h
  obtain ⟨stop, _, hc, h⟩ := bind_eq_ok.mp h
  cases h
  obtain ⟨hn', rfl⟩ := eq_cons_of_expect (by decide) hn
  obtain ⟨ha', rfl⟩ := eq_cons_of_expectFor (by decide) ha
  obtain ⟨-, tokens, rfl, hs'⟩ := sum_of_readExpr hv
  obtain ⟨hc', rfl⟩ := eq_cons_of_expect (by decide) hc
  exact ⟨name :: assign :: tokens ++ [stop], by simp, .binding hn' ha' hs' hc'⟩

theorem readDeclaration_of {property colon stop : Token} {value : Expr}
    (hn : property.kind = .lowerName) (hk : colon.kind = .colon) (hs : Sum tokens value)
    (hc : stop.kind = .semicolon) (rest : TokenStream) :
    readDeclaration .standard ((((rest.cons stop).prepend tokens).cons colon).cons property) =
      .ok (.declaration property.text value ⟨property.span.start, stop.span.stop⟩) rest := by
  have he := endsExpr_cons_of_semicolon hc rest
  rw [readDeclaration, bind_of_ok (expect_cons hn _), bind_of_ok (expect_cons hk _),
    bind_of_ok (readExpr_of_sum hs he), bind_of_ok (expect_cons hc _)]
  rfl

theorem opens_of_readDeclaration {node : Node}
    (h : readDeclaration .standard stream = .ok node rest) :
    ∃ tokens, stream = rest.prepend tokens ∧ Opens tokens (.complete node) := by
  obtain ⟨property, _, hn, h⟩ := bind_eq_ok.mp h
  obtain ⟨colon, _, hk, h⟩ := bind_eq_ok.mp h
  obtain ⟨value, _, hv, h⟩ := bind_eq_ok.mp h
  obtain ⟨stop, _, hc, h⟩ := bind_eq_ok.mp h
  cases h
  obtain ⟨hn', rfl⟩ := eq_cons_of_expect (by decide) hn
  obtain ⟨hk', rfl⟩ := eq_cons_of_expect (by decide) hk
  obtain ⟨-, tokens, rfl, hs'⟩ := sum_of_readExpr hv
  obtain ⟨hc', rfl⟩ := eq_cons_of_expect (by decide) hc
  exact ⟨property :: colon :: tokens ++ [stop], by simp, .declaration hn' hk' hs' hc'⟩

theorem readRuleHeader_of {first brace : Token} {selectors : List Selector}
    (hf : first.IsSelector) (hs : MoreSelectors tokens selectors) (ho : brace.kind = .openBrace)
    (rest : TokenStream) :
    readRuleHeader (((rest.cons brace).prepend tokens).cons first) =
      .ok ⟨.rule first.span.start (first.selector :: selectors), []⟩ rest := by
  have hr : (rest.cons brace).current.kind ≠ .comma := by simp [ho]
  rw [readRuleHeader, bind_of_ok (readSelector_cons hf _),
    bind_of_ok (readMoreSelectors_of hs hr), bind_of_ok (expect_cons ho _)]
  rfl

theorem opens_of_readRuleHeader {block : OpenBlock} (h : readRuleHeader stream = .ok block rest) :
    ∃ tokens, stream = rest.prepend tokens ∧ Opens tokens (.opened block) := by
  obtain ⟨first, _, hf, h⟩ := bind_eq_ok.mp h
  obtain ⟨selectors, _, hs, h⟩ := bind_eq_ok.mp h
  obtain ⟨brace, _, ho, h⟩ := bind_eq_ok.mp h
  cases h
  obtain ⟨token, hf', rfl, rfl⟩ := eq_cons_of_readSelector hf
  obtain ⟨tokens, rfl, hs'⟩ := moreSelectors_of_read hs
  obtain ⟨ho', rfl⟩ := eq_cons_of_expect (by decide) ho
  exact ⟨token :: tokens ++ [brace], by simp, .rule hf' hs' ho'⟩

theorem readConditionalHeader_of {word left right brace : Token} {condition : Expr}
    (hw : word.kind = .ifWord) (hl : left.kind = .openBracket) (hs : Sum tokens condition)
    (hr : right.kind = .closeBracket) (ho : brace.kind = .openBrace) (rest : TokenStream) :
    readConditionalHeader .standard
        (((((rest.cons brace).cons right).prepend tokens).cons left).cons word) =
      .ok ⟨.consequence word.span.start condition, []⟩ rest := by
  have he := endsExpr_cons_of_closeBracket hr (rest.cons brace)
  rw [readConditionalHeader, bind_of_ok (expect_cons hw _), bind_of_ok (expectFor_cons _ hl _),
    bind_of_ok (readExpr_of_sum hs he), bind_of_ok (expect_cons hr _),
    bind_of_ok (expect_cons ho _)]
  rfl

theorem opens_of_readConditionalHeader {block : OpenBlock}
    (h : readConditionalHeader .standard stream = .ok block rest) :
    ∃ tokens, stream = rest.prepend tokens ∧ Opens tokens (.opened block) := by
  obtain ⟨word, _, hw, h⟩ := bind_eq_ok.mp h
  obtain ⟨left, _, hl, h⟩ := bind_eq_ok.mp h
  obtain ⟨condition, _, hs, h⟩ := bind_eq_ok.mp h
  obtain ⟨right, _, hr, h⟩ := bind_eq_ok.mp h
  obtain ⟨brace, _, ho, h⟩ := bind_eq_ok.mp h
  cases h
  obtain ⟨hw', rfl⟩ := eq_cons_of_expect (by decide) hw
  obtain ⟨hl', rfl⟩ := eq_cons_of_expectFor (by decide) hl
  obtain ⟨-, tokens, rfl, hs'⟩ := sum_of_readExpr hs
  obtain ⟨hr', rfl⟩ := eq_cons_of_expect (by decide) hr
  obtain ⟨ho', rfl⟩ := eq_cons_of_expect (by decide) ho
  exact ⟨word :: left :: tokens ++ [right, brace], by simp, .conditional hw' hl' hs' hr' ho'⟩

theorem readOpening_of_form? (form : StatementForm)
    (h : Grammar.standard.form? stream.current.kind = some form) :
    readOpening .standard stream = readForm .standard form stream := by
  rw [readOpening, bind_of_ok (current_run stream)]
  simp only [h]

/-- The token behind a name decides between a declaration and a rule. -/
theorem readOpening_of_lowerName {token : Token} (h : token.kind = .lowerName)
    (rest : TokenStream) :
    readOpening .standard (rest.cons token) =
      readForm .standard (if rest.current.kind = .colon then .declaration else .rule)
        (rest.cons token) := by
  have hg : (get : TokenReader TokenStream) (rest.cons token) =
      .ok (rest.cons token) (rest.cons token) := rfl
  rw [readOpening_of_form? .declarationOrRule (by rw [TokenStream.current_cons, h]; rfl), readForm,
    bind_of_ok hg, TokenStream.following_cons]
  split <;> rfl

theorem readOpening_of_selector {token : Token} (h : token.IsSelector)
    (hr : rest.current.kind ≠ .colon) :
    readOpening .standard (rest.cons token) = readForm .standard .rule (rest.cons token) := by
  rcases h with h | h | h | h
  · exact readOpening_of_form? .rule (by rw [TokenStream.current_cons, h]; rfl)
  · exact readOpening_of_form? .rule (by rw [TokenStream.current_cons, h]; rfl)
  · exact readOpening_of_form? .rule (by rw [TokenStream.current_cons, h]; rfl)
  · rw [readOpening_of_lowerName h, if_neg hr]

/-- The tokens that start a statement are read as its start. -/
theorem readOpening_of_opens (h : Opens tokens opening) (rest : TokenStream) :
    readOpening .standard (rest.prepend tokens) = .ok opening rest := by
  cases h with
  | binding hn ha hs hc =>
    simp only [List.cons_append, TokenStream.prepend_cons, TokenStream.prepend_append,
      TokenStream.prepend_nil]
    rw [readOpening_of_form? .binding (by rw [TokenStream.current_cons, hn]; rfl), readForm,
      bind_of_ok (readBinding_of hn ha hs hc rest)]
    rfl
  | declaration hn hk hs hc =>
    simp only [List.cons_append, TokenStream.prepend_cons, TokenStream.prepend_append,
      TokenStream.prepend_nil]
    rw [readOpening_of_lowerName hn, TokenStream.current_cons, if_pos hk, readForm,
      bind_of_ok (readDeclaration_of hn hk hs hc rest)]
    rfl
  | rule hf hs ho =>
    simp only [List.cons_append, TokenStream.prepend_cons, TokenStream.prepend_append,
      TokenStream.prepend_nil]
    rw [readOpening_of_selector hf (current_ne_colon_of_moreSelectors hs (by simp [ho])), readForm,
      bind_of_ok (readRuleHeader_of hf hs ho rest)]
    rfl
  | conditional hw hl hs hr ho =>
    simp only [List.cons_append, TokenStream.prepend_cons, TokenStream.prepend_append,
      TokenStream.prepend_nil]
    rw [readOpening_of_form? .conditional (by rw [TokenStream.current_cons, hw]; rfl), readForm,
      bind_of_ok (readConditionalHeader_of hw hl hs hr ho rest)]
    rfl

theorem opens_of_readForm {form : StatementForm}
    (h : readForm .standard form stream = .ok opening rest) :
    ∃ tokens, stream = rest.prepend tokens ∧ Opens tokens opening := by
  cases form with
  | binding =>
    obtain ⟨node, _, hr, h⟩ := bind_eq_ok.mp h
    cases h
    exact opens_of_readBinding hr
  | declaration =>
    obtain ⟨node, _, hr, h⟩ := bind_eq_ok.mp h
    cases h
    exact opens_of_readDeclaration hr
  | rule =>
    obtain ⟨block, _, hr, h⟩ := bind_eq_ok.mp h
    cases h
    exact opens_of_readRuleHeader hr
  | conditional =>
    obtain ⟨block, _, hr, h⟩ := bind_eq_ok.mp h
    cases h
    exact opens_of_readConditionalHeader hr
  | declarationOrRule =>
    obtain ⟨_, _, hg, h⟩ := bind_eq_ok.mp h
    cases hg
    split at h
    · obtain ⟨node, _, hr, h⟩ := bind_eq_ok.mp h
      cases h
      exact opens_of_readDeclaration hr
    · obtain ⟨block, _, hr, h⟩ := bind_eq_ok.mp h
      cases h
      exact opens_of_readRuleHeader hr

theorem opens_of_readOpening (h : readOpening .standard stream = .ok opening rest) :
    ∃ tokens, stream = rest.prepend tokens ∧ Opens tokens opening := by
  cases hf : Grammar.standard.form? stream.current.kind with
  | some form =>
    rw [readOpening_of_form? form hf] at h
    exact opens_of_readForm h
  | none =>
    rw [readOpening, bind_of_ok (current_run stream)] at h
    simp only [hf] at h
    obtain ⟨fault, _, _, h⟩ := bind_eq_ok.mp h
    cases h

end Openings

section Blocks

variable {stream rest : TokenStream} {tokens : List Token} {block : OpenBlock} {node : Node}
  {opening : Opening}

/-- What closes a block completes it, once the branch it may open is finished. -/
theorem completes_of_closeBlock (h : closeBlock block stream = .ok opening rest) :
    ∃ tokens, stream = rest.prepend tokens ∧
      ∀ {later node}, Finishes opening later node → Completes block (tokens ++ later) node := by
  obtain ⟨header, before⟩ := block
  obtain ⟨closing, between, hc, h⟩ := bind_eq_ok.mp h
  obtain ⟨hk, hs⟩ := eq_cons_of_expect (by decide) hc
  cases header with
  | rule start selectors =>
    cases h
    refine ⟨[closing], hs, fun hf => ?_⟩
    cases hf
    simpa using Completes.rule .nil hk
  | alternative start condition body elseStart =>
    cases h
    refine ⟨[closing], hs, fun hf => ?_⟩
    cases hf
    simpa using Completes.alternative .nil hk
  | consequence start condition =>
    obtain ⟨_, _, ht, h⟩ := bind_eq_ok.mp h
    cases ht
    split at h
    · next he =>
      have hw : between = between.advance.cons between.current :=
        TokenStream.eq_cons (by rw [he]; decide)
      obtain ⟨word, _, ha, h⟩ := bind_eq_ok.mp h
      cases ha
      obtain ⟨brace, _, ho, h⟩ := bind_eq_ok.mp h
      cases h
      obtain ⟨hb, ho⟩ := eq_cons_of_expect (by decide) ho
      refine ⟨[closing, between.current, brace], ?_, fun hf => ?_⟩
      · rw [ho] at hw
        rw [hs, hw]
        rfl
      · obtain ⟨⟩ | ⟨hc⟩ := hf
        cases hc with
        | alternative hi hc => simpa using Completes.otherwise .nil hk he hb hi hc
    · cases h
      refine ⟨[closing], hs, fun hf => ?_⟩
      cases hf
      simpa using Completes.consequence .nil hk

theorem finishes_of_finish (h : opening.finish .standard stream = .ok node rest) :
    ∃ tokens, stream = rest.prepend tokens ∧ Finishes opening tokens node := by
  induction hn : stream.size using Nat.strongRecOn generalizing stream opening node rest with
  | ind n ih =>
    subst hn
    cases opening with
    | complete node =>
      cases h
      exact ⟨[], rfl, .complete⟩
    | opened block =>
      change readBlocks .standard block [] stream = .ok node rest at h
      by_cases he : stream.endsBlock = true
      · rw [readBlocks_nil_of_ends he] at h
        obtain ⟨opening, between, hc, h⟩ := bind_eq_ok.mp h
        obtain ⟨later, rfl, hf⟩ := ih _ (advances_closeBlock block _ _ _ hc) h rfl
        obtain ⟨tokens, rfl, hc'⟩ := completes_of_closeBlock hc
        exact ⟨tokens ++ later, by simp, .opened (hc' hf)⟩
      · have he : stream.endsBlock = false := by simpa using he
        rw [readBlocks_nil_of_not_ends he] at h
        obtain ⟨item, between, hs, h⟩ := bind_eq_ok.mp h
        obtain ⟨opening, inside, ho, hf⟩ := bind_eq_ok.mp hs
        have h : (Opening.opened (block.add item)).finish .standard between = .ok node rest := h
        obtain ⟨more, rfl, ⟨⟩ | ⟨hm⟩⟩ := ih _ (advances_readStatement _ _ _ _ hs) h rfl
        obtain ⟨later, rfl, hl⟩ := ih _ (advances_readOpening _ _ _ _ ho) hf rfl
        obtain ⟨tokens, rfl, ht⟩ := opens_of_readOpening ho
        exact ⟨tokens ++ later ++ more, by simp, .opened ((ht.items_of_finishes hl).completes hm)⟩

theorem items_of_readStatement (h : readStatement .standard stream = .ok node rest) :
    ∃ tokens, stream = rest.prepend tokens ∧ Items tokens [node] := by
  obtain ⟨opening, between, ho, hf⟩ := bind_eq_ok.mp h
  obtain ⟨later, rfl, hl⟩ := finishes_of_finish hf
  obtain ⟨tokens, rfl, ht⟩ := opens_of_readOpening ho
  exact ⟨tokens ++ later, by simp, ht.items_of_finishes hl⟩

end Blocks

inductive ReadsStatements (rest : TokenStream) : TokenStream → List Node → Prop where

  | nil : ReadsStatements rest rest []

  | cons {stream between : TokenStream} {node : Node} {nodes : List Node} :
      readStatement .standard stream = .ok node between → ReadsStatements rest between nodes →
      ReadsStatements rest stream (node :: nodes)

section Statements

variable {stream rest : TokenStream} {tokens : List Token} {block : OpenBlock} {node : Node}
  {items : List Node} {opening : Opening}

theorem endsBlock_of_opens (h : Opens tokens opening) (rest : TokenStream) :
    (rest.prepend tokens).endsBlock = false := by
  cases h with
  | binding hk _ _ _ | declaration hk _ _ _ | conditional hk _ _ _ _ =>
    simp [TokenStream.endsBlock, TokenStream.atEnd, hk]
  | rule hf _ _ =>
    rcases hf with hk | hk | hk | hk <;> simp [TokenStream.endsBlock, TokenStream.atEnd, hk]

theorem endsBlock_of_readStatement (h : readStatement .standard stream = .ok node rest) :
    stream.endsBlock = false := by
  obtain ⟨opening, between, ho, -⟩ := bind_eq_ok.mp h
  obtain ⟨tokens, rfl, ht⟩ := opens_of_readOpening ho
  exact endsBlock_of_opens ht between

theorem ReadsStatements.readBlocks (h : ReadsStatements rest stream items) (block : OpenBlock) :
    readBlocks .standard block [] stream =
      readBlocks .standard ⟨block.header, items.reverse ++ block.items⟩ [] rest := by
  induction h generalizing block with
  | nil => rfl
  | cons hs _ ih =>
    rw [readBlocks_nil_of_not_ends (endsBlock_of_readStatement hs), bind_of_ok hs, ih]
    simp [OpenBlock.add]

theorem ReadsStatements.readStatements (h : ReadsStatements rest stream items)
    (hr : rest.atEnd = true) : readStatements .standard stream = .ok items rest := by
  induction h with
  | nil => exact readWhile_of_not (by simp [hr])
  | cons hs _ ih =>
    have he := endsBlock_of_readStatement hs
    refine readWhile_cons ?_ hs ih
    simp_all [TokenStream.endsBlock]

theorem readStatement_of_complete (h : Opens tokens (.complete node)) (rest : TokenStream) :
    readStatement .standard (rest.prepend tokens) = .ok node rest := by
  rw [readStatement, bind_of_ok (readOpening_of_opens h rest)]
  rfl

/-- A block with its statements is closed behind them. -/
theorem readStatement_of_opens (ho : Opens tokens (.opened block)) {closing : Token}
    (h : ReadsStatements (rest.cons closing) stream items) (hc : closing.kind = .closeBrace) :
    readStatement .standard (stream.prepend tokens) =
      (closeBlock ⟨block.header, items.reverse ++ block.items⟩ >>= Opening.finish .standard)
        (rest.cons closing) := by
  have he : (rest.cons closing).endsBlock = true := by simp [TokenStream.endsBlock, hc]
  rw [readStatement, bind_of_ok (readOpening_of_opens ho stream), Opening.finish,
    h.readBlocks block, readBlocks_nil_of_ends he]

section Closing

variable {closing : Token} (hc : closing.kind = .closeBrace) (start : Position)
  (condition : Expr) (items : List Node) (rest : TokenStream)

include hc

theorem closeBlock_rule (selectors : List Selector) :
    closeBlock ⟨.rule start selectors, items⟩ (rest.cons closing) =
      .ok (.complete (.rule selectors items.reverse ⟨start, closing.span.stop⟩)) rest := by
  rw [closeBlock, bind_of_ok (expect_cons hc rest)]
  rfl

theorem closeBlock_alternative (body : List Node) (elseStart : Position) :
    closeBlock ⟨.alternative start condition body elseStart, items⟩ (rest.cons closing) =
      .ok (.complete (.conditional condition body
        (some ⟨items.reverse, ⟨elseStart, closing.span.stop⟩⟩) ⟨start, closing.span.stop⟩))
        rest := by
  rw [closeBlock, bind_of_ok (expect_cons hc rest)]
  rfl

theorem closeBlock_consequence (hr : rest.current.kind ≠ .elseWord) :
    closeBlock ⟨.consequence start condition, items⟩ (rest.cons closing) =
      .ok (.complete (.conditional condition items.reverse none ⟨start, closing.span.stop⟩))
        rest := by
  rw [closeBlock, bind_of_ok (expect_cons hc rest)]
  change (current >>= _) rest = _
  rw [bind_of_ok (current_run rest), if_neg hr]
  rfl

theorem closeBlock_otherwise {word brace : Token} (he : word.kind = .elseWord)
    (ho : brace.kind = .openBrace) :
    closeBlock ⟨.consequence start condition, items⟩
        (((rest.cons brace).cons word).cons closing) =
      .ok (.opened ⟨.alternative start condition items.reverse word.span.start, []⟩) rest := by
  rw [closeBlock, bind_of_ok (expect_cons hc _)]
  change (current >>= _) _ = _
  rw [bind_of_ok (current_run _), TokenStream.current_cons, if_pos he,
    bind_of_ok (advance_run word _), bind_of_ok (expect_cons ho rest)]
  rfl

end Closing

theorem current_ne_elseWord_of_items (h : Items tokens items)
    (hr : rest.current.kind ≠ .elseWord) : (rest.prepend tokens).current.kind ≠ .elseWord := by
  cases h with
  | nil => exact hr
  | binding hk | declaration hk | conditional hk | alternative hk => simp [hk]
  | rule hf => rcases hf with hk | hk | hk | hk <;> simp [hk]

/-- Items are read as statements, one after the other. -/
theorem readsStatements_of_items (h : Items tokens items) (hr : rest.current.kind ≠ .elseWord) :
    ReadsStatements rest (rest.prepend tokens) items := by
  induction h generalizing rest with
  | nil => exact .nil
  | @binding _ _ _ _ later _ _ hn ha hs hc _ ih =>
    have h := readStatement_of_complete (.binding hn ha hs hc) (rest.prepend later)
    exact .cons (by simpa using h) (ih hr)
  | @declaration _ _ _ _ later _ _ hn hk hs hc _ ih =>
    have h := readStatement_of_complete (.declaration hn hk hs hc) (rest.prepend later)
    exact .cons (by simpa using h) (ih hr)
  | @rule _ _ closing _ _ later _ _ _ hf hs ho _ hc _ ihb ih =>
    have hb := @ihb ((rest.prepend later).cons closing) (by simp [hc])
    have h := readStatement_of_opens (.rule hf hs ho) hb hc
    rw [bind_of_ok (closeBlock_rule hc _ _ _ _)] at h
    exact .cons (by simpa using h) (ih hr)
  | @conditional _ _ _ _ closing _ _ later _ _ _ hw hl hs hr' ho _ hc hi ihb ih =>
    have hb := @ihb ((rest.prepend later).cons closing) (by simp [hc])
    have h := readStatement_of_opens (.conditional hw hl hs hr' ho) hb hc
    rw [bind_of_ok (closeBlock_consequence hc _ _ _ _ (current_ne_elseWord_of_items hi hr))] at h
    exact .cons (by simpa using h) (ih hr)
  | @alternative _ _ _ _ closing word brace closing' _ _ inner later _ _ _ _ hw hl hs hr' ho _ hc he
      ho' _ hc' _ ihb ihb' ih =>
    have hb' := @ihb' ((rest.prepend later).cons closing') (by simp [hc'])
    have hb := @ihb
      ((((((rest.prepend later).cons closing').prepend inner).cons brace).cons word).cons closing)
      (by simp [hc])
    have h := readStatement_of_opens (.conditional hw hl hs hr' ho) hb hc
    rw [bind_of_ok (closeBlock_otherwise hc _ _ _ _ he ho'), Opening.finish, hb'.readBlocks,
      readBlocks_nil_of_ends (by simp [TokenStream.endsBlock, hc']),
      bind_of_ok (closeBlock_alternative hc' _ _ _ _ _ _)] at h
    exact .cons (by simpa using h) (ih hr)

theorem readStatements_eq_ok_iff :
    readStatements .standard stream = .ok items rest ↔
      rest.atEnd = true ∧ ∃ tokens, stream = rest.prepend tokens ∧ Items tokens items := by
  constructor
  · intro h
    have hr := readWhile_sound (R := Items) .nil ?_ h
    · simpa using hr
    · intro stream node between _ hs
      obtain ⟨tokens, rfl, ht⟩ := items_of_readStatement hs
      exact ⟨tokens, rfl, ht.append⟩
  · rintro ⟨he, tokens, rfl, ht⟩
    have hk : rest.current.kind = .endOfInput := by simpa [TokenStream.atEnd] using he
    exact (readsStatements_of_items ht (by simp [hk])).readStatements he

end Statements

section Documents

variable {file : String} {tokens before : List Token} {ending : Token} {children : List Node}
  {tree : Node}

theorem readStatements_prepend_iff {base rest : TokenStream} (hb : base.pending = [])
    (hk : ∀ token ∈ before, token.kind ≠ .endOfInput) :
    readStatements .standard (base.prepend before) = .ok children rest ↔
      rest = base ∧ Items before children := by
  rw [readStatements_eq_ok_iff]
  constructor
  · rintro ⟨he, tokens, hp, ht⟩
    obtain ⟨rfl, hr⟩ := TokenStream.eq_prepend_of_prepend_eq hb hp
    cases hl : rest.pending with
    | nil =>
      rw [hl] at hr
      exact ⟨hr, by simpa [hl] using ht⟩
    | cons token later =>
      have ha : token.kind = .endOfInput := by
        simpa [TokenStream.atEnd, TokenStream.current, hl] using he
      exact absurd ha (hk token (by simp [hl]))
  · rintro ⟨rfl, ht⟩
    exact ⟨by simp [TokenStream.atEnd, TokenStream.current, TokenStream.ending, hb],
      before, rfl, ht⟩

/-- A document holds the items of the tokens before the closing one, and ends
there. -/
theorem parseTokens_iff_items {base : TokenStream} (hb : base.pending = [])
    (hs : TokenStream.ofTokens file tokens = base.prepend before)
    (hk : ∀ token ∈ before, token.kind ≠ .endOfInput) :
    parseTokens file tokens = .ok tree ↔
      ∃ children, Items before children ∧
        tree = .document children ⟨⟨0, file⟩, base.current.span.start⟩ := by
  rw [parseTokens, readDocument, hs]
  cases h : readStatements .standard (base.prepend before) with
  | ok children rest =>
    obtain ⟨rfl, hi⟩ := (readStatements_prepend_iff hb hk).mp h
    rw [bind_of_ok h, bind_of_ok (current_run rest)]
    constructor
    · rintro ⟨⟩
      exact ⟨children, hi, rfl⟩
    · rintro ⟨others, ho, rfl⟩
      cases h.symm.trans ((readStatements_prepend_iff hb hk).mpr ⟨rfl, ho⟩)
      rfl
  | error fault rest =>
    rw [bind_of_error h]
    constructor
    · rintro ⟨⟩
    · rintro ⟨children, hi, rfl⟩
      cases h.symm.trans ((readStatements_prepend_iff hb hk).mpr ⟨rfl, hi⟩)

theorem ofTokens_unclosed {last : Token} (hl : tokens.getLast? = some last)
    (hk : last.kind ≠ .endOfInput) :
    TokenStream.ofTokens file tokens =
      TokenStream.prepend tokens ⟨[], "EOF", ⟨last.span.stop, last.span.stop⟩⟩ := by
  simp [TokenStream.ofTokens, hl, hk, TokenStream.prepend]

theorem parseTokens_nil (file : String) :
    parseTokens file [] = .ok (.document [] ⟨⟨0, file⟩, ⟨0, file⟩⟩) := by
  have hs : TokenStream.ofTokens file [] =
      TokenStream.prepend [] ⟨[], "EOF", ⟨⟨0, file⟩, ⟨0, file⟩⟩⟩ := rfl
  exact (parseTokens_iff_items rfl hs (by simp)).mpr ⟨[], .nil, rfl⟩

theorem derives_of_parseTokens (h : parseTokens file tokens = .ok tree) :
    Document file tokens tree := by
  cases hf : tokens.find? (·.kind = .endOfInput) with
  | some ending =>
    obtain ⟨he, before, rest, rfl, hk⟩ := List.find?_eq_some_iff_append.mp hf
    have he : ending.kind = .endOfInput := by simpa using he
    have hk : ∀ token ∈ before, token.kind ≠ .endOfInput := by simpa using hk
    rw [parseTokens_append_cons file he,
      parseTokens_iff_items rfl (TokenStream.ofTokens_concat file he before) hk] at h
    obtain ⟨children, hi, rfl⟩ := h
    rw [TokenStream.current_closed he]
    exact .closed rfl hk he hi
  | none =>
    have hk : ∀ token ∈ tokens, token.kind ≠ .endOfInput := by simpa using hf
    cases hl : tokens.getLast? with
    | some last =>
      have hm := hk last (List.mem_of_getLast? hl)
      rw [parseTokens_iff_items rfl (ofTokens_unclosed hl hm) hk] at h
      obtain ⟨children, hi, rfl⟩ := h
      exact .unclosed hk hl hi
    | none =>
      obtain rfl := List.getLast?_eq_none_iff.mp hl
      cases (parseTokens_nil file).symm.trans h
      exact .empty rfl

theorem parseTokens_of_derives (h : Document file tokens tree) :
    parseTokens file tokens = .ok tree := by
  cases h with
  | @closed before rest ending children ht hk he hi =>
    rw [ht, parseTokens_append_cons file he,
      parseTokens_iff_items rfl (TokenStream.ofTokens_concat file he before) hk]
    exact ⟨children, hi, by rw [TokenStream.current_closed he]⟩
  | @unclosed last children hk hl hi =>
    have hm := hk last (List.mem_of_getLast? hl)
    rw [parseTokens_iff_items rfl (ofTokens_unclosed hl hm) hk]
    exact ⟨children, hi, rfl⟩
  | empty ht =>
    rw [ht, parseTokens_nil]

end Documents

/-- Exactly the derivable token lists are parsed, into the one tree that they
derive, and what stands behind the first closing token changes nothing. -/
theorem parseTokens_iff_derives (file : String) (tokens : List Token) :
    (∀ tree, parseTokens file tokens = .ok tree ↔ Document file tokens tree) ∧
    (∀ tree tree', Document file tokens tree → Document file tokens tree' → tree = tree') ∧
    ∀ before ending rest, ending.kind = .endOfInput → tokens = before ++ ending :: rest →
      ∀ other, parseTokens file (before ++ ending :: other) = parseTokens file tokens := by
  refine ⟨fun tree => ⟨derives_of_parseTokens, parseTokens_of_derives⟩, fun tree tree' h h' => ?_,
    fun before ending rest he ht other => ?_⟩
  · exact Except.ok.inj ((parseTokens_of_derives h).symm.trans (parseTokens_of_derives h'))
  · rw [ht, parseTokens_append_cons file he, parseTokens_append_cons file he before rest]

/-- A declaration in a branch in a rule, a closing token, and a sign behind it that
derives nothing. -/
theorem parseTokens_iff_derives_trailing :
    let place (start stop : UInt32) : Span := ⟨⟨start, ""⟩, ⟨stop, ""⟩⟩
    let before : List Token := [⟨.lowerName, "p", place 0 1⟩, ⟨.openBrace, "\x7b", place 1 2⟩,
      ⟨.ifWord, "if", place 2 4⟩, ⟨.openBracket, "[", place 4 5⟩, ⟨.capitalName, "B", place 5 6⟩,
      ⟨.closeBracket, "]", place 6 7⟩, ⟨.openBrace, "\x7b", place 7 8⟩,
      ⟨.lowerName, "width", place 8 13⟩, ⟨.colon, ":", place 13 14⟩,
      ⟨.capitalName, "W", place 14 15⟩, ⟨.minus, "-", place 15 16⟩, ⟨.scalar, "2", place 16 17⟩,
      ⟨.star, "*", place 17 18⟩, ⟨.pixel, "3px", place 18 21⟩, ⟨.semicolon, ";", place 21 22⟩,
      ⟨.closeBrace, "\x7d", place 22 23⟩, ⟨.closeBrace, "\x7d", place 23 24⟩]
    let ending : Token := ⟨.endOfInput, "EOF", place 24 24⟩
    let later : List Token := [⟨.plus, "+", place 24 25⟩]
    let product : Expr := .operation .multiply (.literal (.quantity 2 .scalar) (place 16 17))
      (.literal (.quantity 3 .pixel) (place 18 21)) (place 16 21)
    let value : Expr := .operation .subtract (.reference "W" (place 14 15)) product (place 14 21)
    let branch : Node := .conditional (.reference "B" (place 5 6))
      [.declaration "width" value (place 8 22)] none (place 2 23)
    let tree : Node := .document [.rule [⟨"p", place 0 1⟩] [branch] (place 0 24)] (place 0 24)
    Document "" (before ++ ending :: later) tree ∧
      parseTokens "" (before ++ ending :: later) = .ok tree ∧
      parseTokens "" (before ++ ending :: []) = .ok tree := by
  intro place before ending later product value branch tree
  have htwo : Primary ⟨.scalar, "2", place 16 17⟩
      (.literal (.quantity 2 .scalar) (place 16 17)) :=
    @Primary.quantity _ .scalar 2 ['2'] 1 rfl (by decide)
      (.unsigned ⟨nofun, List.forall_mem_singleton.mpr rfl, rfl⟩ rfl)
  have hthree : Primary ⟨.pixel, "3px", place 18 21⟩
      (.literal (.quantity 3 .pixel) (place 18 21)) :=
    @Primary.quantity _ .pixel 3 ['3'] 1 rfl (by decide)
      (.unsigned ⟨nofun, List.forall_mem_singleton.mpr rfl, rfl⟩ rfl)
  have hs : Sum [⟨.capitalName, "W", place 14 15⟩, ⟨.minus, "-", place 15 16⟩,
      ⟨.scalar, "2", place 16 17⟩, ⟨.star, "*", place 17 18⟩, ⟨.pixel, "3px", place 18 21⟩]
      value :=
    .minus (.product (.primary (.reference rfl))) rfl (.times (.primary htwo) rfl hthree)
  have hb : Items [⟨.lowerName, "width", place 8 13⟩, ⟨.colon, ":", place 13 14⟩,
      ⟨.capitalName, "W", place 14 15⟩, ⟨.minus, "-", place 15 16⟩, ⟨.scalar, "2", place 16 17⟩,
      ⟨.star, "*", place 17 18⟩, ⟨.pixel, "3px", place 18 21⟩, ⟨.semicolon, ";", place 21 22⟩]
      [.declaration "width" value (place 8 22)] :=
    .declaration rfl rfl hs rfl .nil
  have hc : Sum [⟨.capitalName, "B", place 5 6⟩] (.reference "B" (place 5 6)) :=
    .product (.primary (.reference rfl))
  have hi : Items before [.rule [⟨"p", place 0 1⟩] [branch] (place 0 24)] :=
    .rule (.inr (.inr (.inr rfl))) .nil rfl (.conditional rfl rfl hc rfl rfl hb rfl .nil) rfl .nil
  have hd : Document "" (before ++ ending :: later) tree := .closed rfl (by decide) rfl hi
  obtain ⟨hiff, -, htail⟩ := parseTokens_iff_derives "" (before ++ ending :: later)
  have hp := (hiff _).mpr hd
  exact ⟨hd, hp, (htail _ _ _ rfl rfl []).trans hp⟩

end Stylesheet
