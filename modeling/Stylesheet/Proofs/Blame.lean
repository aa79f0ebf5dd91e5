import Stylesheet.Proofs.Parsing

/-! # The token to blame

A reader that fails stops at the token that its fault names. What it took before
that token can be completed, and no tokens behind the blamed one change the
fault. So a fault is reported at the first token that cannot be right.
-/

namespace Stylesheet

open TokenReader Derives

/-- A run from `stream` failed at the current token of `rest`. The tokens taken
before it are the front of some tokens with the property. -/
structure Blames (Complete : List Token → Prop) (stream : TokenStream) (fault : Fault)
    (rest : TokenStream) : Prop where
  position : fault.position = rest.current.span.start
  viable : ∃ tokens more, stream = rest.prepend tokens ∧ Complete (tokens ++ more)

namespace Blames

variable {Complete Complete' : List Token → Prop} {stream rest : TokenStream} {fault : Fault}

theorem here (hp : fault.position = stream.current.span.start) {more : List Token}
    (hm : Complete more) : Blames Complete stream fault stream :=
  ⟨hp, [], more, rfl, hm⟩

theorem behind (h : Blames Complete stream fault rest) (tokens : List Token)
    (hc : ∀ later, Complete later → ∃ more, Complete' (tokens ++ later ++ more)) :
    Blames Complete' (stream.prepend tokens) fault rest := by
  obtain ⟨hp, taken, more, rfl, hm⟩ := h
  obtain ⟨further, hf⟩ := hc (taken ++ more) hm
  refine ⟨hp, tokens ++ taken, more ++ further, by simp, ?_⟩
  simpa using hf

theorem mono (h : Blames Complete stream fault rest)
    (hc : ∀ tokens, Complete tokens → Complete' tokens) : Blames Complete' stream fault rest := by
  apply h.behind []
  intro later hl
  exact ⟨[], by simpa using hc later hl⟩

end Blames

/-- At this stream, a reader takes tokens that derive its result, or blames the
token at which nothing can be derived any more. -/
structure Follows {α : Type} (Derived : List Token → α → Prop) (reader : TokenReader α)
    (stream : TokenStream) : Prop where
  sound : ∀ {a rest}, reader stream = .ok a rest →
    ∃ tokens, stream = rest.prepend tokens ∧ Derived tokens a
  blames : ∀ {fault rest}, reader stream = .error fault rest →
    Blames (fun tokens => ∃ a, Derived tokens a) stream fault rest

/-- A reader that follows a relation at every stream. Something is derived, so the
reader can be completed from the start. -/
structure Predictive {α : Type} (Derived : List Token → α → Prop) (reader : TokenReader α) :
    Prop where
  follows : ∀ stream, Follows Derived reader stream
  derived : ∃ tokens a, Derived tokens a

/-- Tokens that derive something, and behind them tokens that derive something
from it. -/
def Then {α β : Type} (First : List Token → α → Prop) (Second : α → List Token → β → Prop)
    (tokens : List Token) (b : β) : Prop :=
  ∃ first a later, tokens = first ++ later ∧ First first a ∧ Second a later b

section

variable {α β : Type} {reader : TokenReader α} {next : α → TokenReader β}
  {Derived Derived' : List Token → α → Prop} {Later : α → List Token → β → Prop}
  {stream rest : TokenStream} {fault : Fault}

theorem bind_eq_error :
    (reader >>= next) stream = .error fault rest ↔
      reader stream = .error fault rest ∨
        ∃ a between, reader stream = .ok a between ∧ next a between = .error fault rest := by
  cases hr : reader stream with
  | ok a between =>
    rw [bind_of_ok hr]
    constructor
    · intro h
      exact Or.inr ⟨a, between, rfl, h⟩
    · rintro (h | ⟨_, _, h, hn⟩)
      · cases h
      · cases h
        exact hn
  | error fault' between =>
    rw [bind_of_error hr]
    constructor
    · intro h
      cases h
      exact Or.inl rfl
    · rintro (h | ⟨_, _, h, _⟩)
      · cases h
        rfl
      · cases h

theorem Follows.congr {reader' : TokenReader α} (h : Follows Derived reader stream)
    (he : reader' stream = reader stream) : Follows Derived reader' stream := by
  constructor
  · intro a rest hr
    exact h.sound (he.symm.trans hr)
  · intro fault rest hr
    exact h.blames (he.symm.trans hr)

namespace Predictive

theorem mono (h : Predictive Derived reader)
    (hd : ∀ tokens a, Derived tokens a → Derived' tokens a) : Predictive Derived' reader := by
  constructor
  · intro stream
    constructor
    · intro a rest hr
      obtain ⟨tokens, hs, ht⟩ := (h.follows stream).sound hr
      exact ⟨tokens, hs, hd tokens a ht⟩
    · intro fault rest hr
      apply ((h.follows stream).blames hr).mono
      rintro tokens ⟨a, ht⟩
      exact ⟨a, hd tokens a ht⟩
  · obtain ⟨tokens, a, ht⟩ := h.derived
    exact ⟨tokens, a, hd tokens a ht⟩

theorem pure (a : α) : Predictive (fun tokens b => tokens = [] ∧ b = a) (pure a) := by
  constructor
  · intro stream
    constructor
    · intro b rest hr
      cases hr
      exact ⟨[], rfl, rfl, rfl⟩
    · intro fault rest hr
      cases hr
  · exact ⟨[], a, rfl, rfl⟩

/-- Predictive readers one behind the other: where the first one fails, what
completes it is completed by what the second one derives. -/
theorem bind (h : Predictive Derived reader) (hn : ∀ a, Predictive (Later a) (next a)) :
    Predictive (Then Derived Later) (reader >>= next) := by
  constructor
  · intro stream
    constructor
    · intro b rest hr
      obtain ⟨a, between, ha, hb⟩ := bind_eq_ok.mp hr
      obtain ⟨first, rfl, hf⟩ := (h.follows stream).sound ha
      obtain ⟨later, rfl, hs⟩ := ((hn a).follows between).sound hb
      exact ⟨first ++ later, by simp, first, a, later, rfl, hf, hs⟩
    · intro fault rest hr
      rcases bind_eq_error.mp hr with ha | ⟨a, between, ha, hb⟩
      · apply ((h.follows stream).blames ha).behind []
        rintro first ⟨a, hf⟩
        obtain ⟨later, b, hs⟩ := (hn a).derived
        exact ⟨later, b, first, a, later, rfl, hf, hs⟩
      · obtain ⟨first, rfl, hf⟩ := (h.follows stream).sound ha
        apply (((hn a).follows between).blames hb).behind first
        rintro later ⟨b, hs⟩
        exact ⟨[], b, first, a, later, by simp, hf, hs⟩
  · obtain ⟨first, a, hf⟩ := h.derived
    obtain ⟨later, b, hs⟩ := (hn a).derived
    exact ⟨first ++ later, b, first, a, later, rfl, hf, hs⟩

theorem readWhile {wanted : TokenStream → Bool} {advances : Advances reader}
    {All : List Token → List α → Prop} (nil : All [] [])
    (cons : ∀ {tokens a later as},
      Derived tokens a → All later as → All (tokens ++ later) (a :: as))
    (hr : ∀ stream, wanted stream = true → Follows Derived reader stream) :
    Predictive All (readWhile wanted reader advances) := by
  constructor
  · intro stream
    constructor
    · intro as rest h
      refine (readWhile_sound nil ?_ h).2
      intro stream a between hw ha
      obtain ⟨tokens, hs, ht⟩ := (hr stream hw).sound ha
      exact ⟨tokens, hs, cons ht⟩
    · intro fault rest h
      -- The rounds that succeed come first, and each leaves a shorter stream.
      induction hn : stream.size using Nat.strongRecOn generalizing stream with
      | ind n ih =>
        subst hn
        by_cases hw : wanted stream = true
        · rw [readWhile_of_wanted hw] at h
          rcases bind_eq_error.mp h with ha | ⟨a, between, ha, h⟩
          · apply ((hr stream hw).blames ha).behind []
            rintro tokens ⟨a, ht⟩
            exact ⟨[], [a], by simpa using cons ht nil⟩
          · rcases bind_eq_error.mp h with h | ⟨as, _, _, h⟩
            · have hb := ih _ (advances _ _ _ ha) between h rfl
              obtain ⟨tokens, rfl, ht⟩ := (hr stream hw).sound ha
              apply hb.behind tokens
              rintro later ⟨as, hl⟩
              exact ⟨[], a :: as, by simpa using cons ht hl⟩
            · cases h
        · have hf : wanted stream = false := by simpa using hw
          rw [readWhile_of_not hf] at h
          cases h
  · exact ⟨[], [], nil⟩

end Predictive

end

def OfKind (kind : TokenKind) (tokens : List Token) (token : Token) : Prop :=
  token.kind = kind ∧ tokens = [token]

def SelectorOf (tokens : List Token) (selector : Selector) : Prop :=
  ∃ token : Token, token.IsSelector ∧ tokens = [token] ∧ selector = token.selector

def PrimaryOf (tokens : List Token) (e : Expr) : Prop :=
  ∃ token, tokens = [token] ∧ Primary token e

def Token.plain (kind : TokenKind) : Token := ⟨kind, "", .unknown⟩

section Tokens

theorem exists_ofKind (kind : TokenKind) : ∃ tokens token, OfKind kind tokens token :=
  ⟨_, Token.plain kind, rfl, rfl⟩

theorem exists_selectorOf : ∃ tokens selector, SelectorOf tokens selector :=
  ⟨_, _, Token.plain .lowerName, Or.inr (Or.inr (Or.inr rfl)), rfl, rfl⟩

theorem exists_primaryOf : ∃ tokens e, PrimaryOf tokens e :=
  ⟨_, _, Token.plain .trueWord, rfl, .yes rfl⟩

theorem follows_expectOr {stream : TokenStream} {kind : TokenKind} {fault : Fault}
    (hk : kind ≠ .endOfInput) (hf : fault.position = stream.current.span.start) :
    Follows (OfKind kind) (expectOr kind fault) stream := by
  constructor
  · intro token rest h
    obtain ⟨ht, rfl⟩ := eq_cons_of_expectOr hk h
    exact ⟨[token], rfl, ht, rfl⟩
  · intro fault' rest h
    rw [expectOr, bind_of_ok (current_run stream)] at h
    split at h
    · cases h
    · cases h
      obtain ⟨tokens, ht⟩ := exists_ofKind kind
      exact .here hf ht

theorem predictive_expect (kind : TokenKind) (hk : kind ≠ .endOfInput) :
    Predictive (OfKind kind) (expect kind) := by
  constructor
  · intro stream
    exact (follows_expectOr hk rfl).congr rfl
  · exact exists_ofKind kind

theorem predictive_expectFor (message : String) (kind : TokenKind) (hk : kind ≠ .endOfInput) :
    Predictive (OfKind kind) (expectFor message kind) := by
  constructor
  · intro stream
    exact (follows_expectOr hk rfl).congr rfl
  · exact exists_ofKind kind

theorem blames_of_misplaced {α : Type} {Derived : List Token → α → Prop} {stream rest : TokenStream}
    {fault : Fault} {message : String} (hd : ∃ tokens a, Derived tokens a)
    (h : (misplaced message >>= fun fault => throw fault : TokenReader α) stream =
      .error fault rest) :
    Blames (fun tokens => ∃ a, Derived tokens a) stream fault rest := by
  cases h
  obtain ⟨tokens, ht⟩ := hd
  exact .here rfl ht

theorem predictive_readSelector : Predictive SelectorOf readSelector := by
  constructor
  · intro stream
    constructor
    · intro selector rest h
      obtain ⟨token, ht, rfl, rfl⟩ := eq_cons_of_readSelector h
      exact ⟨[token], rfl, token, ht, rfl, rfl⟩
    · intro fault rest h
      rw [readSelector, bind_of_ok (current_run stream)] at h
      split at h
      · cases h
      · exact blames_of_misplaced exists_selectorOf h
  · exact exists_selectorOf

theorem predictive_readMoreSelectors : Predictive MoreSelectors readMoreSelectors := by
  have hnext := (predictive_expect .comma (by decide)).bind
    fun _ => predictive_readSelector
  refine Predictive.readWhile .nil ?_ fun stream _ => hnext.follows stream
  rintro _ _ later selectors ⟨_, comma, _, rfl, ⟨hc, rfl⟩, token, ht, rfl, rfl⟩ hm
  exact .cons hc ht hm

end Tokens

section Expressions

theorem predictive_readOperand : Predictive PrimaryOf (readOperand .standard) := by
  constructor
  · intro stream
    constructor
    · intro e rest h
      obtain ⟨token, ht, rfl⟩ := primary_of_readOperand h
      exact ⟨[token], rfl, token, rfl, ht⟩
    · intro fault rest h
      rw [readOperand, bind_of_ok (current_run stream)] at h
      split at h
      · -- A token of the right kind is no operand if its number is out of range.
        rw [readPrimary, bind_of_ok (current_run stream)] at h
        cases ho : stream.current.operand with
        | ok e =>
          rw [ho] at h
          cases h
        | error cause =>
          rw [ho] at h
          cases h
          obtain ⟨tokens, hp⟩ := exists_primaryOf
          exact .here rfl hp
      · exact blames_of_misplaced exists_primaryOf h
  · exact exists_primaryOf

theorem follows_readStep {stream : TokenStream} {operator : Operator}
    (ho : stream.current.kind = operator.kind) :
    Follows (fun tokens step => Run tokens [step]) (readStep .standard) stream := by
  have hn : stream.current.kind ≠ .endOfInput := by
    rw [ho]
    cases operator <;> decide
  rw [TokenStream.eq_cons hn]
  constructor
  · intro step rest h
    obtain ⟨token, operand, hp, rfl, ht⟩ := run_of_readStep ho h
    exact ⟨[stream.current, token], by rw [ht]; rfl, .cons ho hp .nil⟩
  · intro fault rest h
    rw [readStep, bind_of_ok (current_run _), bind_of_ok (readOperator_cons ho _)] at h
    rcases bind_eq_error.mp h with h | ⟨_, _, _, h⟩
    · apply ((predictive_readOperand.follows _).blames h).behind [stream.current]
      rintro _ ⟨operand, token, rfl, hp⟩
      exact ⟨[], _, .cons ho hp .nil⟩
    · cases h

theorem predictive_readSteps : Predictive Run (readSteps .standard .lowest) := by
  have hstep (stream : TokenStream)
      (hw : decide (Precedence.lowest < Grammar.standard.power stream.current.kind) = true) :
      Follows (fun tokens step => Run tokens [step]) (readStep .standard) stream := by
    obtain ⟨operator, ho⟩ := lowest_lt_power_iff.mp (of_decide_eq_true hw)
    exact follows_readStep ho
  refine Predictive.readWhile .nil ?_ hstep
  intro tokens step later steps hs hl
  exact hs.append hl

theorem predictive_readExpr : Predictive Sum (readExpr .standard .lowest) := by
  have h := predictive_readOperand.bind fun operand => predictive_readSteps.bind fun steps =>
    Predictive.pure (Expr.group [] operand steps)
  constructor
  · intro stream
    constructor
    · intro e rest hr
      exact (sum_of_readExpr hr).2
    · intro fault rest hr
      apply ((h.follows stream).blames hr).mono
      rintro _ ⟨e, _, operand, _, rfl, ⟨token, rfl, hp⟩, later, steps, _, rfl, hs, rfl, rfl⟩
      simpa using hp.exists_sum hs
  · obtain ⟨_, e, token, rfl, hp⟩ := exists_primaryOf
    exact ⟨[token], e, .product (.primary hp)⟩

end Expressions

section Openings

def OpensNode (tokens : List Token) (node : Node) : Prop := Opens tokens (.complete node)

def OpensBlock (tokens : List Token) (block : OpenBlock) : Prop := Opens tokens (.opened block)

theorem predictive_readBinding : Predictive OpensNode (readBinding .standard) := by
  have h := (predictive_expect .capitalName (by decide)).bind fun name =>
    (predictive_expectFor "expected `:=` after variable name" .assign (by decide)).bind
      fun _ => predictive_readExpr.bind fun value =>
        (predictive_expect .semicolon (by decide)).bind fun close =>
          Predictive.pure (Node.binding name.text value ⟨name.span.start, close.span.stop⟩)
  refine h.mono ?_
  rintro _ _ ⟨_, name, _, rfl, ⟨hn, rfl⟩, _, assign, _, rfl, ⟨ha, rfl⟩, tokens, value, _, rfl, hs,
    _, stop, _, rfl, ⟨hc, rfl⟩, rfl, rfl⟩
  simpa [OpensNode] using Opens.binding hn ha hs hc

theorem predictive_readDeclaration : Predictive OpensNode (readDeclaration .standard) := by
  have h := (predictive_expect .lowerName (by decide)).bind fun property =>
    (predictive_expect .colon (by decide)).bind fun _ =>
      predictive_readExpr.bind fun value =>
        (predictive_expect .semicolon (by decide)).bind fun close =>
          Predictive.pure
            (Node.declaration property.text value ⟨property.span.start, close.span.stop⟩)
  refine h.mono ?_
  rintro _ _ ⟨_, property, _, rfl, ⟨hp, rfl⟩, _, colon, _, rfl, ⟨hk, rfl⟩, tokens, value, _, rfl,
    hs, _, stop, _, rfl, ⟨hc, rfl⟩, rfl, rfl⟩
  simpa [OpensNode] using Opens.declaration hp hk hs hc

theorem predictive_readRuleHeader : Predictive OpensBlock readRuleHeader := by
  have h := predictive_readSelector.bind fun first => predictive_readMoreSelectors.bind fun more =>
    (predictive_expect .openBrace (by decide)).bind fun _ =>
      Predictive.pure (OpenBlock.mk (.rule first.span.start (first :: more)) [])
  refine h.mono ?_
  rintro _ _ ⟨_, _, _, rfl, ⟨first, hf, rfl, rfl⟩, tokens, more, _, rfl, hs, _, brace, _, rfl,
    ⟨ho, rfl⟩, rfl, rfl⟩
  simpa [OpensBlock, Token.selector] using Opens.rule hf hs ho

theorem predictive_readConditionalHeader :
    Predictive OpensBlock (readConditionalHeader .standard) := by
  have h := (predictive_expect .ifWord (by decide)).bind fun word =>
    (predictive_expectFor "expected `[` after `if`" .openBracket (by decide)).bind fun _ =>
      predictive_readExpr.bind fun condition =>
        (predictive_expect .closeBracket (by decide)).bind fun _ =>
          (predictive_expect .openBrace (by decide)).bind fun _ =>
            Predictive.pure (OpenBlock.mk (.consequence word.span.start condition) [])
  refine h.mono ?_
  rintro _ _ ⟨_, word, _, rfl, ⟨hw, rfl⟩, _, left, _, rfl, ⟨hl, rfl⟩, tokens, condition, _, rfl, hs,
    _, right, _, rfl, ⟨hr, rfl⟩, _, brace, _, rfl, ⟨ho, rfl⟩, rfl, rfl⟩
  simpa [OpensBlock] using Opens.conditional hw hl hs hr ho

theorem predictive_complete {reader : TokenReader Node} (h : Predictive OpensNode reader) :
    Predictive Opens (do return .complete (← reader)) := by
  refine (h.bind fun node => Predictive.pure (Opening.complete node)).mono ?_
  rintro _ _ ⟨tokens, node, _, rfl, ho, rfl, rfl⟩
  rw [List.append_nil]
  exact ho

theorem predictive_opened {reader : TokenReader OpenBlock} (h : Predictive OpensBlock reader) :
    Predictive Opens (do return .opened (← reader)) := by
  refine (h.bind fun block => Predictive.pure (Opening.opened block)).mono ?_
  rintro _ _ ⟨tokens, block, _, rfl, ho, rfl, rfl⟩
  rw [List.append_nil]
  exact ho

/-- Whichever form the token behind a name chooses, what is taken can be completed
to that form. -/
theorem predictive_readForm (form : StatementForm) :
    Predictive Opens (readForm .standard form) := by
  cases form with
  | binding => exact predictive_complete predictive_readBinding
  | declaration => exact predictive_complete predictive_readDeclaration
  | rule => exact predictive_opened predictive_readRuleHeader
  | conditional => exact predictive_opened predictive_readConditionalHeader
  | declarationOrRule =>
    have hd := predictive_complete predictive_readDeclaration
    have hr := predictive_opened predictive_readRuleHeader
    refine ⟨fun stream => ?_, hd.derived⟩
    have hg : (get : TokenReader TokenStream) stream = .ok stream stream := rfl
    by_cases hc : stream.following.kind = .colon
    · exact (hd.follows stream).congr (by rw [readForm, bind_of_ok hg, if_pos hc])
    · exact (hr.follows stream).congr (by rw [readForm, bind_of_ok hg, if_neg hc])

theorem predictive_readOpening : Predictive Opens (readOpening .standard) := by
  have hd := (predictive_readForm .rule).derived
  refine ⟨fun stream => ?_, hd⟩
  cases hf : Grammar.standard.form? stream.current.kind with
  | some form =>
    exact ((predictive_readForm form).follows stream).congr (readOpening_of_form? form hf)
  | none =>
    constructor
    · intro opening rest h
      exact opens_of_readOpening h
    · intro fault rest h
      rw [readOpening, bind_of_ok (current_run stream)] at h
      simp only [hf] at h
      exact blames_of_misplaced hd h

end Openings

section Blocks

variable {stream rest : TokenStream} {block : OpenBlock} {opening : Opening} {fault : Fault}

theorem exists_completes (block : OpenBlock) {closing : Token} (hc : closing.kind = .closeBrace) :
    ∃ node, Completes block [closing] node := by
  obtain ⟨header, items⟩ := block
  cases header with
  | rule start selectors => exact ⟨_, .rule .nil hc⟩
  | consequence start condition => exact ⟨_, .consequence .nil hc⟩
  | alternative start condition body elseStart => exact ⟨_, .alternative .nil hc⟩

theorem exists_finishes (opening : Opening) : ∃ tokens node, Finishes opening tokens node := by
  cases opening with
  | complete node => exact ⟨[], node, .complete⟩
  | opened block =>
    obtain ⟨node, hn⟩ := exists_completes block (rfl : (Token.plain .closeBrace).kind = _)
    exact ⟨_, node, .opened hn⟩

theorem blames_of_closeBlock (h : closeBlock block stream = .error fault rest) :
    Blames (fun tokens => ∃ node, Completes block tokens node) stream fault rest := by
  obtain ⟨header, items⟩ := block
  rcases bind_eq_error.mp h with hb | ⟨closing, between, hb, h⟩
  · apply (((predictive_expect .closeBrace (by decide)).follows stream).blames hb).mono
    rintro _ ⟨closing, hc, rfl⟩
    exact exists_completes ⟨header, items⟩ hc
  · obtain ⟨hc, hs⟩ := eq_cons_of_expect (by decide) hb
    cases header with
    | rule start selectors => cases h
    | alternative start condition body elseStart => cases h
    | consequence start condition =>
      change (current >>= _) between = _ at h
      rw [bind_of_ok (current_run between)] at h
      split at h
      · next he =>
        have hw : between = between.advance.cons between.current :=
          TokenStream.eq_cons (by rw [he]; decide)
        rw [hw, bind_of_ok (advance_run _ _)] at h
        rcases bind_eq_error.mp h with h | ⟨_, _, _, h⟩
        · rw [hs, hw]
          apply (((predictive_expect .openBrace (by decide)).follows _).blames h).behind
            [closing, between.current]
          rintro _ ⟨brace, ho, rfl⟩
          have hclose : (Token.plain .closeBrace).kind = .closeBrace := rfl
          exact ⟨[.plain .closeBrace], _, Completes.otherwise .nil hc he ho .nil hclose⟩
        · cases h
      · cases h

theorem blames_of_finish (h : opening.finish .standard stream = .error fault rest) :
    Blames (fun tokens => ∃ node, Finishes opening tokens node) stream fault rest := by
  induction hn : stream.size using Nat.strongRecOn generalizing stream opening rest with
  | ind n ih =>
    subst hn
    cases opening with
    | complete node => cases h
    | opened block =>
      change readBlocks .standard block [] stream = .error fault rest at h
      have hclose : (Token.plain .closeBrace).kind = .closeBrace := rfl
      by_cases he : stream.endsBlock = true
      · rw [readBlocks_nil_of_ends he] at h
        rcases bind_eq_error.mp h with hc | ⟨opening, between, hc, hf⟩
        · apply (blames_of_closeBlock hc).mono
          rintro tokens ⟨node, hn⟩
          exact ⟨node, .opened hn⟩
        · have hb := ih _ (advances_closeBlock block _ _ _ hc) hf rfl
          obtain ⟨tokens, rfl, hcompletes⟩ := completes_of_closeBlock hc
          apply hb.behind tokens
          rintro later ⟨node, hl⟩
          exact ⟨[], node, by simpa using Finishes.opened (hcompletes hl)⟩
      · have he : stream.endsBlock = false := by simpa using he
        rw [readBlocks_nil_of_not_ends he] at h
        rcases bind_eq_error.mp h with hs | ⟨item, between, hs, hr⟩
        · -- The statement inside is finished first, and then the block is closed.
          rcases bind_eq_error.mp hs with ho | ⟨opening, inside, ho, hf⟩
          · apply ((predictive_readOpening.follows stream).blames ho).behind []
            rintro tokens ⟨opening, ht⟩
            obtain ⟨later, item, hl⟩ := exists_finishes opening
            obtain ⟨node, hn⟩ := exists_completes (block.add item) hclose
            refine ⟨later ++ [.plain .closeBrace], node, .opened ?_⟩
            simpa using (ht.items_of_finishes hl).completes hn
          · have hb := ih _ (advances_readOpening _ _ _ _ ho) hf rfl
            obtain ⟨tokens, rfl, ht⟩ := opens_of_readOpening ho
            apply hb.behind tokens
            rintro later ⟨item, hl⟩
            obtain ⟨node, hn⟩ := exists_completes (block.add item) hclose
            exact ⟨[.plain .closeBrace], node, .opened ((ht.items_of_finishes hl).completes hn)⟩
        · have hr : (Opening.opened (block.add item)).finish .standard between =
              .error fault rest := hr
          have hb := ih _ (advances_readStatement _ _ _ _ hs) hr rfl
          obtain ⟨tokens, rfl, ht⟩ := items_of_readStatement hs
          apply hb.behind tokens
          rintro later ⟨node, ⟨⟩ | ⟨hl⟩⟩
          exact ⟨[], node, by simpa using Finishes.opened (ht.completes hl)⟩

theorem follows_readStatement (stream : TokenStream) :
    Follows (fun tokens node => Items tokens [node]) (readStatement .standard) stream := by
  constructor
  · intro node rest h
    exact items_of_readStatement h
  · intro fault rest h
    rcases bind_eq_error.mp h with ho | ⟨opening, between, ho, hf⟩
    · apply ((predictive_readOpening.follows stream).blames ho).behind []
      rintro tokens ⟨opening, ht⟩
      obtain ⟨later, node, hl⟩ := exists_finishes opening
      exact ⟨later, node, ht.items_of_finishes hl⟩
    · obtain ⟨tokens, rfl, ht⟩ := opens_of_readOpening ho
      apply (blames_of_finish hf).behind tokens
      rintro later ⟨node, hl⟩
      exact ⟨[], node, by simpa using ht.items_of_finishes hl⟩

theorem predictive_readStatements : Predictive Items (readStatements .standard) := by
  refine Predictive.readWhile .nil ?_ fun stream _ => follows_readStatement stream
  intro tokens node later nodes hs hl
  exact hs.append hl

end Blocks

theorem TokenStream.exists_current_ofTokens (file : String) (before : List Token) (token : Token)
    (others : List Token) :
    ∃ behind : TokenStream, behind.current = token ∧
      ofTokens file (before ++ token :: others) = behind.prepend before := by
  by_cases ho : others = []
  · subst ho
    by_cases hk : token.kind = .endOfInput
    · exact ⟨closed token, current_closed hk, ofTokens_concat file hk before⟩
    · refine ⟨cons token ⟨[], "EOF", ⟨token.span.stop, token.span.stop⟩⟩, rfl, ?_⟩
      rw [ofTokens_unclosed (by simp) hk, prepend_append]
      rfl
  · obtain ⟨behind, hb⟩ := exists_ofTokens file before token ho
    exact ⟨cons token behind, rfl, hb⟩

/-- A failed run fails alike on every stream that agrees up to the blamed token. -/
theorem readDocument_error_congr {file : String} {rest other : TokenStream} {tokens : List Token}
    {fault : Fault} (h : readDocument .standard file (rest.prepend tokens) = .error fault rest)
    (ho : other.current = rest.current) :
    readDocument .standard file (other.prepend tokens) = .error fault other := by
  obtain ⟨taken, left, result, hs, hl⟩ := local_readDocument file (rest.prepend tokens)
  have hr := hl left rfl
  rw [← hs, h] at hr
  cases result with
  | ok node => cases hr
  | error fault' =>
    cases hr
    have ht : tokens = taken := List.append_cancel_right (congrArg TokenStream.pending hs)
    rw [ht]
    exact hl other ho

/-- A fault is reported at the start of some token. The tokens before it are the
front of tokens that are parsed, and everything that goes on behind it fails in
the same way. -/
theorem parseTokens_error_first {file : String} {tokens : List Token} {ending : Token}
    {fault : Fault} (he : ending.kind = .endOfInput)
    (h : parseTokens file (tokens ++ [ending]) = .error fault) :
    ∃ before token later, tokens ++ [ending] = before ++ token :: later ∧
      fault.position = token.span.start ∧
      (∃ more tree, parseTokens file (before ++ more) = .ok tree) ∧
      ∀ others, parseTokens file (before ++ token :: others) = .error fault := by
  obtain ⟨rest, hr⟩ : ∃ rest, readDocument .standard file
      ((TokenStream.closed ending).prepend tokens) = .error fault rest := by
    rw [parseTokens, TokenStream.ofTokens_concat file he] at h
    split at h
    · cases h
    · next hr =>
      cases h
      exact ⟨_, hr⟩
  have hs : readStatements .standard ((TokenStream.closed ending).prepend tokens) =
      .error fault rest := by
    rcases bind_eq_error.mp hr with hs | ⟨children, between, _, hd⟩
    · exact hs
    · cases hd
  obtain ⟨hposition, before, more, hp, items, hi⟩ := (predictive_readStatements.follows _).blames hs
  obtain ⟨ht, hrest⟩ := TokenStream.eq_prepend_of_prepend_eq rfl hp
  -- What is left starts with the blamed token: the closing one if nothing else is left.
  obtain ⟨later, hlater⟩ : ∃ later, rest.pending ++ [ending] = rest.current :: later := by
    cases hl : rest.pending with
    | nil =>
      rw [hl] at hrest
      exact ⟨[], by rw [hrest, TokenStream.prepend_nil, TokenStream.current_closed he]; rfl⟩
    | cons token later => exact ⟨later ++ [ending], by simp [TokenStream.current, hl]⟩
  refine ⟨before, rest.current, later, ?_, hposition, ?_, ?_⟩
  · rw [ht, List.append_assoc, hlater]
  · have hd : Document file (before ++ (more ++ [ending])) _ :=
      .closed (List.append_assoc ..).symm hi.kind_ne he hi
    exact ⟨more ++ [ending], _, parseTokens_of_derives hd⟩
  · intro others
    obtain ⟨behind, hb, ho⟩ := TokenStream.exists_current_ofTokens file before rest.current others
    rw [hp] at hr
    rw [parseTokens, ho, readDocument_error_congr hr hb]

/-- A declaration without its semicolon: `p { width: 10px }`. -/
theorem parseTokens_error_first_semicolon :
    ∃ (tokens : List Token) (ending : Token) (fault : Fault),
      tokens.map Token.text = ["p", "\x7b", "width", ":", "10px", "\x7d"] ∧
      ending.kind = .endOfInput ∧ parseTokens "" (tokens ++ [ending]) = .error fault ∧
      ∃ before token later, tokens ++ [ending] = before ++ token :: later ∧
        fault.position = token.span.start ∧
        (∃ more tree, parseTokens "" (before ++ more) = .ok tree) ∧
        ∀ others, parseTokens "" (before ++ token :: others) = .error fault := by
  let tokens : List Token := [⟨.lowerName, "p", ⟨⟨0, ""⟩, ⟨1, ""⟩⟩⟩,
    ⟨.openBrace, "\x7b", ⟨⟨2, ""⟩, ⟨3, ""⟩⟩⟩, ⟨.lowerName, "width", ⟨⟨4, ""⟩, ⟨9, ""⟩⟩⟩,
    ⟨.colon, ":", ⟨⟨9, ""⟩, ⟨10, ""⟩⟩⟩, ⟨.pixel, "10px", ⟨⟨11, ""⟩, ⟨15, ""⟩⟩⟩,
    ⟨.closeBrace, "\x7d", ⟨⟨16, ""⟩, ⟨17, ""⟩⟩⟩]
  let ending : Token := ⟨.endOfInput, "EOF", ⟨⟨17, ""⟩, ⟨17, ""⟩⟩⟩
  have hn : (parseTokens "" (tokens ++ [ending])).toOption.isNone = true := by decide +kernel
  cases hp : parseTokens "" (tokens ++ [ending]) with
  | ok tree =>
    rw [hp] at hn
    cases hn
  | error fault =>
    exact ⟨tokens, ending, fault, rfl, rfl, hp, parseTokens_error_first rfl hp⟩

end Stylesheet
