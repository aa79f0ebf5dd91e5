import Stylesheet.Proofs.Derivation
import Stylesheet.Proofs.Environment

/-! # Reading by descent

Streams are built up from their tokens, and the readers of single tokens are
described by the tokens they take. Reading with a stack of open blocks is
reading by descent: a statement in a block is read on its own, and then the
block is read on.
-/

namespace Stylesheet

section Runs

variable {ε σ α β : Type} {step : EStateM ε σ α} {s s' : σ}

theorem bind_of_error {next : α → EStateM ε σ β} {e : ε} (h : step s = .error e s') :
    (step >>= next) s = .error e s' := by
  change EStateM.bind step next s = _
  rw [EStateM.bind, h]

theorem bind_congr_left {step' : EStateM ε σ α} (h : step s = step' s)
    (next : α → EStateM ε σ β) : (step >>= next) s = (step' >>= next) s := by
  change EStateM.bind step next s = EStateM.bind step' next s
  rw [EStateM.bind, EStateM.bind, h]

theorem bind_congr_of_ok {next next' : α → EStateM ε σ β}
    (h : ∀ a s', step s = .ok a s' → next a s' = next' a s') :
    (step >>= next) s = (step >>= next') s := by
  cases hs : step s with
  | ok a s' => rw [bind_of_ok hs, bind_of_ok hs, h a s' hs]
  | error e s' => rw [bind_of_error hs, bind_of_error hs]

end Runs

namespace TokenStream

def cons (token : Token) (stream : TokenStream) : TokenStream :=
  { stream with pending := token :: stream.pending }

def prepend (tokens : List Token) (stream : TokenStream) : TokenStream :=
  { stream with pending := tokens ++ stream.pending }

@[simp] theorem prepend_nil (stream : TokenStream) : prepend [] stream = stream := rfl

@[simp] theorem prepend_cons (token : Token) (tokens : List Token) (stream : TokenStream) :
    prepend (token :: tokens) stream = cons token (prepend tokens stream) := rfl

@[simp] theorem prepend_append (tokens later : List Token) (stream : TokenStream) :
    prepend (tokens ++ later) stream = prepend tokens (prepend later stream) := by
  simp [prepend, List.append_assoc]

@[simp] theorem pending_prepend (tokens : List Token) (stream : TokenStream) :
    (prepend tokens stream).pending = tokens ++ stream.pending := rfl

@[simp] theorem current_cons (token : Token) (stream : TokenStream) :
    (cons token stream).current = token := rfl

@[simp] theorem following_cons (token : Token) (stream : TokenStream) :
    (cons token stream).following = stream.current := by
  obtain ⟨pending, endText, endSpan⟩ := stream
  cases pending <;> rfl

@[simp] theorem advance_cons (token : Token) (stream : TokenStream) :
    (cons token stream).advance = stream := rfl

theorem eq_cons {stream : TokenStream} (h : stream.current.kind ≠ .endOfInput) :
    stream = cons stream.current stream.advance := by
  obtain ⟨pending, endText, endSpan⟩ := stream
  cases pending with
  | nil => exact absurd rfl h
  | cons token pending => rfl

theorem current_prepend_congr {stream stream' : TokenStream} (tokens : List Token)
    (h : stream.current = stream'.current) :
    (prepend tokens stream).current = (prepend tokens stream').current := by
  cases tokens with
  | nil => exact h
  | cons token tokens => rfl

end TokenStream

namespace TokenReader

variable {stream rest : TokenStream} {token : Token} {kind : TokenKind} {fault : Fault}

theorem current_run (stream : TokenStream) : current stream = .ok stream.current stream := rfl

theorem advance_run (token : Token) (rest : TokenStream) :
    advance (rest.cons token) = .ok token rest := rfl

theorem expectOr_cons (h : token.kind = kind) (fault : Fault) (rest : TokenStream) :
    expectOr kind fault (rest.cons token) = .ok token rest := by
  rw [expectOr, bind_of_ok (current_run _), TokenStream.current_cons, if_pos h]
  exact advance_run token rest

theorem expect_cons (h : token.kind = kind) (rest : TokenStream) :
    expect kind (rest.cons token) = .ok token rest :=
  expectOr_cons h _ rest

theorem expectFor_cons (message : String) (h : token.kind = kind) (rest : TokenStream) :
    expectFor message kind (rest.cons token) = .ok token rest :=
  expectOr_cons h _ rest

theorem eq_cons_of_expectOr (hk : kind ≠ .endOfInput)
    (h : expectOr kind fault stream = .ok token rest) :
    token.kind = kind ∧ stream = rest.cons token := by
  rw [expectOr, bind_of_ok (current_run stream)] at h
  by_cases hc : stream.current.kind = kind
  · have hs := TokenStream.eq_cons (hc ▸ hk)
    rw [if_pos hc, hs] at h
    cases h
    exact ⟨hc, hs⟩
  · rw [if_neg hc] at h
    cases h

theorem eq_cons_of_expect (hk : kind ≠ .endOfInput) (h : expect kind stream = .ok token rest) :
    token.kind = kind ∧ stream = rest.cons token :=
  eq_cons_of_expectOr hk h

theorem eq_cons_of_expectFor {message : String} (hk : kind ≠ .endOfInput)
    (h : expectFor message kind stream = .ok token rest) :
    token.kind = kind ∧ stream = rest.cons token :=
  eq_cons_of_expectOr hk h

end TokenReader

section Selectors

open TokenReader

variable {stream rest : TokenStream} {token : Token}

theorem Token.isOneOf_selectorKinds_iff :
    token.isOneOf selectorKinds = true ↔ token.IsSelector := by
  simp [Token.isOneOf, selectorKinds, Token.IsSelector]

theorem readSelector_cons (h : token.IsSelector) (rest : TokenStream) :
    readSelector (rest.cons token) = .ok token.selector rest := by
  rw [readSelector, bind_of_ok (current_run _), TokenStream.current_cons,
    if_pos (Token.isOneOf_selectorKinds_iff.mpr h), bind_of_ok (advance_run token rest)]
  rfl

theorem Token.IsSelector.kind_ne (h : token.IsSelector) : token.kind ≠ .endOfInput := by
  rcases h with h | h | h | h <;> simp [h]

theorem eq_cons_of_readSelector {selector : Selector}
    (h : readSelector stream = .ok selector rest) :
    ∃ token : Token, token.IsSelector ∧ selector = token.selector ∧ stream = rest.cons token := by
  rw [readSelector, bind_of_ok (current_run stream)] at h
  split at h
  · next hs =>
    have hs := Token.isOneOf_selectorKinds_iff.mp hs
    cases h
    exact ⟨_, hs, rfl, TokenStream.eq_cons hs.kind_ne⟩
  · cases h

end Selectors

section ReadWhile

variable {α : Type} {wanted : TokenStream → Bool} {reader : TokenReader α}
  {advances : Advances reader} {stream : TokenStream}

theorem readWhile_of_not (h : wanted stream = false) :
    readWhile wanted reader advances stream = .ok [] stream := by
  rw [readWhile, if_neg (by simp [h])]

theorem readWhile_of_wanted (h : wanted stream = true) :
    readWhile wanted reader advances stream =
      (do
        let a ← reader
        let as ← readWhile wanted reader advances
        return a :: as : TokenReader (List α)) stream := by
  rw [readWhile, if_pos h]
  split
  · next hr => rw [bind_of_error hr]
  · next a between hr =>
    rw [bind_of_ok hr]
    cases hs : readWhile wanted reader advances between with
    | ok as rest =>
      rw [bind_of_ok hs]
      rfl
    | error fault rest => rw [bind_of_error hs]

theorem readWhile_cons {a : α} {as : List α} {between rest : TokenStream}
    (hw : wanted stream = true) (hr : reader stream = .ok a between)
    (hs : readWhile wanted reader advances between = .ok as rest) :
    readWhile wanted reader advances stream = .ok (a :: as) rest := by
  rw [readWhile_of_wanted hw, bind_of_ok hr, bind_of_ok hs]
  rfl

theorem readWhile_eq_ok_nil {rest : TokenStream}
    (h : readWhile wanted reader advances stream = .ok [] rest) :
    wanted stream = false ∧ rest = stream := by
  by_cases hw : wanted stream = true
  · rw [readWhile_of_wanted hw] at h
    obtain ⟨a, between, -, h⟩ := bind_eq_ok.mp h
    obtain ⟨as, between', -, h⟩ := bind_eq_ok.mp h
    cases h
  · have hf : wanted stream = false := by simpa using hw
    rw [readWhile_of_not hf] at h
    cases h
    exact ⟨hf, rfl⟩

theorem readWhile_eq_ok_cons {a : α} {as : List α} {rest : TokenStream}
    (h : readWhile wanted reader advances stream = .ok (a :: as) rest) :
    wanted stream = true ∧ ∃ between, reader stream = .ok a between ∧
      readWhile wanted reader advances between = .ok as rest := by
  by_cases hw : wanted stream = true
  · rw [readWhile_of_wanted hw] at h
    obtain ⟨a', between, hr, h⟩ := bind_eq_ok.mp h
    obtain ⟨as', rest', hl, h⟩ := bind_eq_ok.mp h
    cases h
    exact ⟨hw, between, hr, hl⟩
  · rw [readWhile_of_not (by simpa using hw)] at h
    cases h

/-- What a repeated reader reads is composed of what its rounds read. -/
theorem readWhile_sound {R : List Token → List α → Prop} (nil : R [] [])
    (cons : ∀ {stream a between}, wanted stream = true → reader stream = .ok a between →
      ∃ tokens, stream = between.prepend tokens ∧
        ∀ {later as}, R later as → R (tokens ++ later) (a :: as))
    {as : List α} {rest : TokenStream} (h : readWhile wanted reader advances stream = .ok as rest) :
    wanted rest = false ∧ ∃ tokens, stream = rest.prepend tokens ∧ R tokens as := by
  induction as generalizing stream with
  | nil =>
    obtain ⟨hf, rfl⟩ := readWhile_eq_ok_nil h
    exact ⟨hf, [], rfl, nil⟩
  | cons a as ih =>
    obtain ⟨hw, between, hr, hl⟩ := readWhile_eq_ok_cons h
    obtain ⟨tokens, rfl, hc⟩ := cons hw hr
    obtain ⟨hf, more, rfl, hm⟩ := ih hl
    exact ⟨hf, tokens ++ more, by rw [TokenStream.prepend_append], hc hm⟩

end ReadWhile

/-- Go on behind the start of a statement or the end of a block, in the blocks
around it. -/
def Opening.resume (grammar : Grammar) : Opening → List OpenBlock → TokenReader Node
  | .opened block, outer => readBlocks grammar block outer
  | .complete node, [] => return node
  | .complete node, parent :: outer => readBlocks grammar (parent.add node) outer

section Blocks

variable {grammar : Grammar} {block : OpenBlock} {stream : TokenStream}

@[simp] theorem Opening.finish_complete (node : Node) (stream : TokenStream) :
    (Opening.complete node).finish grammar stream = .ok node stream := rfl

theorem Opening.resume_nil (opening : Opening) :
    opening.resume grammar [] = opening.finish grammar := by
  cases opening <;> rfl

theorem readBlocks_of_ends (h : stream.endsBlock = true) (outer : List OpenBlock) :
    readBlocks grammar block outer stream =
      (closeBlock block >>= fun opening => opening.resume grammar outer) stream := by
  rw [readBlocks, if_pos h]
  split
  · next hc => rw [bind_of_error hc]
  · next hc =>
    rw [bind_of_ok hc]
    rfl
  · next hc =>
    rw [bind_of_ok hc]
    cases outer <;> rfl

theorem readBlocks_of_not_ends (h : stream.endsBlock = false) (outer : List OpenBlock) :
    readBlocks grammar block outer stream =
      (readOpening grammar >>= fun opening => opening.resume grammar (block :: outer)) stream := by
  rw [readBlocks, if_neg (by simp [h])]
  split
  · next ho => rw [bind_of_error ho]
  · next ho =>
    rw [bind_of_ok ho]
    rfl
  · next ho =>
    rw [bind_of_ok ho]
    rfl

theorem Opening.resume_cons (opening : Opening) (parent : OpenBlock) (outer : List OpenBlock)
    (stream : TokenStream) :
    opening.resume grammar (parent :: outer) stream =
      (opening.finish grammar >>= fun node => readBlocks grammar (parent.add node) outer)
        stream := by
  induction hn : stream.size using Nat.strongRecOn generalizing stream opening parent outer with
  | ind n ih =>
    subst hn
    cases opening with
    | complete node => rfl
    | opened block =>
      change readBlocks grammar block (parent :: outer) stream =
        (readBlocks grammar block [] >>= fun node => readBlocks grammar (parent.add node) outer)
          stream
      by_cases he : stream.endsBlock = true
      · rw [readBlocks_of_ends he, bind_congr_left (readBlocks_of_ends he []), bind_assoc]
        refine bind_congr_of_ok fun opening rest hc => ?_
        rw [Opening.resume_nil]
        exact ih _ (advances_closeBlock block _ _ _ hc) opening parent outer rest rfl
      · have he : stream.endsBlock = false := by simpa using he
        rw [readBlocks_of_not_ends he, bind_congr_left (readBlocks_of_not_ends he []), bind_assoc]
        refine bind_congr_of_ok fun opening rest ho => ?_
        have hlt := advances_readOpening grammar _ _ _ ho
        -- The inner statement is read in the same way whatever stands around the block.
        rw [ih _ hlt opening block (parent :: outer) rest rfl,
          bind_congr_left (ih _ hlt opening block [] rest rfl), bind_assoc]
        refine bind_congr_of_ok fun node between hf => ?_
        have hle := steady_finish grammar opening _ _ _ hf
        exact ih _ (by omega) (.opened (block.add node)) parent outer between rfl

theorem readBlocks_nil_of_ends (h : stream.endsBlock = true) :
    readBlocks grammar block [] stream =
      (closeBlock block >>= Opening.finish grammar) stream := by
  rw [readBlocks_of_ends h]
  exact bind_congr_of_ok fun opening rest _ => by rw [Opening.resume_nil]

theorem readBlocks_nil_of_not_ends (h : stream.endsBlock = false) :
    readBlocks grammar block [] stream =
      (readStatement grammar >>= fun node => readBlocks grammar (block.add node) []) stream := by
  rw [readBlocks_of_not_ends h, readStatement, bind_assoc]
  exact bind_congr_of_ok fun opening rest _ => Opening.resume_cons opening block [] rest

end Blocks

end Stylesheet
