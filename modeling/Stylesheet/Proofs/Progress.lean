import Stylesheet.Proofs.Routines

/-! # Progress of the parser

While a document is read, no routine takes a closing token, and every call comes later in
the stream than its caller's or goes to a routine of lower rank. So the stream only moves
forward, never past the first closing token, and calls cannot nest without end: every
loop of the parser ends on every list of tokens.
-/

namespace Stylesheet

open TokenReader

namespace TokenStream

def tokens (stream : TokenStream) : List Token := stream.pending ++ [stream.ending]

def firstEnd (stream : TokenStream) : Nat :=
  stream.tokens.findIdx fun token => token.kind = .endOfInput

/-- The stream has moved on to a position of `start`, which is one of its tokens and not
past the first closing one. -/
structure At (start : TokenStream) (position : Nat) (stream : TokenStream) : Prop where
  ahead : stream.tokens = start.tokens.drop position
  inside : position < start.tokens.length
  unended : position ≤ start.firstEnd

/-- Only tokens that do not close stand between a stream and a later one. -/
def Passes (stream rest : TokenStream) : Prop :=
  ∃ taken, stream = rest.prepend taken ∧ ∀ token ∈ taken, token.kind ≠ .endOfInput

variable {start stream between rest : TokenStream}

theorem Passes.refl (stream : TokenStream) : stream.Passes stream := ⟨[], rfl, by simp⟩

theorem Passes.trans (h : stream.Passes between) (h' : between.Passes rest) :
    stream.Passes rest := by
  obtain ⟨taken, rfl, ht⟩ := h
  obtain ⟨later, rfl, hl⟩ := h'
  refine ⟨taken ++ later, by rw [prepend_append], ?_⟩
  rintro token hm
  rcases List.mem_append.mp hm with hm | hm
  · exact ht token hm
  · exact hl token hm

theorem Passes.advance (h : stream.current.kind ≠ .endOfInput) :
    stream.Passes stream.advance :=
  ⟨[stream.current], eq_cons h, by simpa using h⟩

theorem tokens_prepend (taken : List Token) (stream : TokenStream) :
    (stream.prepend taken).tokens = taken ++ stream.tokens :=
  List.append_assoc taken stream.pending [stream.ending]

theorem tokens_ofTokens (file : String) (given : List Token) :
    (ofTokens file given).tokens = given ∨
      (ofTokens file given).tokens = given ++ [(ofTokens file given).ending] := by
  unfold ofTokens
  cases h : given.getLast? with
  | none =>
    rw [List.getLast?_eq_none_iff] at h
    exact .inr (by rw [h]; rfl)
  | some last =>
    obtain ⟨before, rfl⟩ := List.getLast?_eq_some_iff.mp h
    obtain ⟨kind, text, span⟩ := last
    by_cases hk : kind = .endOfInput
    · exact .inl (by simp [hk, tokens, ending])
    · exact .inr (by simp [hk, tokens])

theorem firstEnd_lt (stream : TokenStream) : stream.firstEnd < stream.tokens.length :=
  List.findIdx_lt_length_of_exists ⟨stream.ending, by simp [tokens], by simp [ending]⟩

theorem Passes.at (h : start.Passes stream) : ∃ position, start.At position stream := by
  obtain ⟨taken, rfl, ht⟩ := h
  have hu : taken.length ≤ (stream.prepend taken).firstEnd := by
    rw [firstEnd, tokens_prepend, List.findIdx_append, List.findIdx_eq_length_of_false]
    · simp
    · simpa using ht
  refine ⟨taken.length, ?_, Nat.lt_of_le_of_lt hu (firstEnd_lt _), hu⟩
  rw [tokens_prepend, List.drop_left]

theorem length_tokens (stream : TokenStream) : stream.tokens.length = stream.size + 1 :=
  List.length_append

theorem At.size_add {position : Nat} (h : start.At position stream) :
    stream.size + position = start.size := by
  have hl := congrArg List.length h.ahead
  have hi := h.inside
  simp only [List.length_drop, length_tokens] at hl hi
  omega

theorem Passes.size_le (h : stream.Passes rest) : rest.size ≤ stream.size := by
  obtain ⟨taken, rfl, -⟩ := h
  simp [size]

theorem At.le {position later : Nat} (h : start.At position stream) (h' : start.At later rest)
    (hp : stream.Passes rest) : position ≤ later := by
  have := h.size_add
  have := h'.size_add
  have := hp.size_le
  omega

end TokenStream

namespace Routine

/-- Whether a routine may return without taking a token: the loops, and the document. -/
def repeats : {α : Type} → Routine α → Bool
  | _, operators _ _ => true
  | _, selectors => true
  | _, items => true
  | _, statements => true
  | _, document _ => true
  | _, _ => false

/-- What a call relies on: no closing token is expected, and none is in the place of an
operator. -/
def Ready : {α : Type} → Routine α → TokenStream → Prop
  | _, expect kind, _ => kind ≠ .endOfInput
  | _, expectFor _ kind, _ => kind ≠ .endOfInput
  | _, operation _ _, stream => stream.current.kind ≠ .endOfInput
  | _, _, _ => True

/-- Calls that take no token before go down in rank. -/
def rank : {α : Type} → Routine α → Nat
  | _, expect _ => 0
  | _, expectFor _ _ => 0
  | _, primary => 0
  | _, operation _ _ => 0
  | _, selector => 0
  | _, expr _ => 1
  | _, operators _ _ => 1
  | _, selectors => 1
  | _, block => 1
  | _, form .declarationOrRule => 3
  | _, form _ => 2
  | _, statement => 4
  | _, items => 5
  | _, statements => 5
  | _, document _ => 6

def depth {α : Type} (routine : Routine α) (stream : TokenStream) : Nat :=
  7 * stream.size + routine.rank

/-- What a routine may call from a stream. -/
def Below {α : Type} (routine : Routine α) (stream : TokenStream) {β : Type}
    (callee : Routine β) (rest : TokenStream) : Prop :=
  callee.Ready rest ∧ callee.depth rest < routine.depth stream

variable {α β : Type} {routine : Routine α} {callee : Routine β} {stream rest : TokenStream}

theorem rank_lt (routine : Routine α) : routine.rank < 7 := by
  cases routine with
  | form kind => cases kind <;> simp [rank]
  | _ => simp [rank]

theorem depth_lt_of_size (h : rest.size < stream.size) :
    callee.depth rest < routine.depth stream := by
  have := callee.rank_lt
  unfold depth
  omega

theorem depth_lt_of_rank (h : callee.rank < routine.rank) :
    callee.depth stream < routine.depth stream :=
  Nat.add_lt_add_left h _

theorem size_lt_of_read {a : α} (h : routine.Ready stream) (hr : routine.repeats = false)
    (ho : routine.read stream = .ok a rest) : rest.size < stream.size := by
  cases routine with
  | expect kind => exact advances_expect h _ _ _ ho
  | expectFor message kind => exact advances_expectFor message h _ _ _ ho
  | primary => exact advances_readPrimary _ _ _ ho
  | expr limit => exact advances_readExpr _ limit _ _ _ ho
  | operation left limit =>
    exact (advances_readOperator.bind fun _ => (advances_readExpr _ limit).steady.bind
      fun _ => .pure _) _ _ _ ho
  | selector => exact advances_readSelector _ _ _ ho
  | block =>
    exact ((advances_expect (by decide)).bind fun _ => (steady_readWhile _ _).bind fun _ =>
      (advances_expect (by decide)).steady.bind fun _ => .pure _) _ _ _ ho
  | form kind => exact ((advances_readForm _ kind).bind fun _ => steady_finish _ _) _ _ _ ho
  | statement => exact advances_readStatement _ _ _ _ ho
  | _ => cases hr

theorem size_le_of_read {a : α} (h : routine.Ready stream)
    (ho : routine.read stream = .ok a rest) : rest.size ≤ stream.size := by
  cases hr : routine.repeats with
  | false => exact Nat.le_of_lt (size_lt_of_read h hr ho)
  | true =>
    cases routine with
    | operators limit left =>
      exact ((steady_readWhile _ _).bind fun _ => .pure _) _ _ _ ho
    | selectors => exact steady_readWhile _ _ _ _ _ ho
    | items => exact steady_readWhile _ _ _ _ _ ho
    | statements => exact steady_readWhile _ _ _ _ _ ho
    | document file =>
      exact ((steady_readWhile _ _).bind fun _ => steady_current.bind fun _ => .pure _) _ _ _ ho
    | _ => cases hr

end Routine

namespace Script

/-- A script takes no closing token and makes only calls that are allowed. -/
def Careful (allowed : {β : Type} → Routine β → TokenStream → Prop) {α : Type} :
    Script α → TokenStream → Prop
  | done _, _ => True
  | fail _, _ => True
  | look next, stream => (next stream).Careful allowed stream
  | take next, stream =>
    stream.current.kind ≠ .endOfInput ∧ (next stream.current).Careful allowed stream.advance
  | call routine next, stream =>
    allowed routine stream ∧
      ∀ b rest, routine.read stream = .ok b rest → (next b).Careful allowed rest

section

variable {allowed : {β : Type} → Routine β → TokenStream → Prop} {α β γ : Type}
  {routine : Routine α} {callee : Routine β} {stream rest : TokenStream}

theorem Careful.mono {script : Script γ} (h : script.Careful allowed stream)
    {permitted : {β : Type} → Routine β → TokenStream → Prop}
    (hp : ∀ {β : Type} {callee : Routine β} {rest}, allowed callee rest → permitted callee rest) :
    script.Careful permitted stream := by
  induction script generalizing stream with
  | done a => trivial
  | fail fault => trivial
  | look next ih => exact ih stream h
  | take next ih => exact ⟨h.1, ih _ h.2⟩
  | call callee next ih => exact ⟨hp h.1, fun b rest hb => ih b (h.2 b rest hb)⟩

/-- Behind the token where it was called, a routine may call every routine. -/
theorem Careful.below {script : Script γ} (h : script.Careful Routine.Ready rest)
    (hs : rest.size < stream.size) : script.Careful (routine.Below stream) rest := by
  induction script generalizing rest with
  | done a => trivial
  | fail fault => trivial
  | look next ih => exact ih rest h hs
  | take next ih =>
    exact ⟨h.1, ih _ h.2 (Nat.lt_of_le_of_lt TokenStream.size_advance_le hs)⟩
  | call callee next ih =>
    refine ⟨⟨h.1, Routine.depth_lt_of_size hs⟩, fun b behind hb => ih b (h.2 b behind hb) ?_⟩
    exact Nat.lt_of_le_of_lt (Routine.size_le_of_read h.1 hb) hs

theorem careful_call {next : β → Script γ} (hc : callee.Ready stream)
    (hk : callee.rank < routine.rank) (hr : callee.repeats = false)
    (hn : ∀ b rest, (next b).Careful Routine.Ready rest) :
    (call callee next).Careful (routine.Below stream) stream :=
  ⟨⟨hc, Routine.depth_lt_of_rank hk⟩, fun b rest hb =>
    (hn b rest).below (Routine.size_lt_of_read hc hr hb)⟩

theorem careful_token {kind : TokenKind} (h : kind ≠ .endOfInput) (cause : Token → Cause) :
    (token kind cause).Careful allowed stream := by
  simp only [token, Careful]
  split
  · next hk => exact ⟨hk ▸ h, trivial⟩
  · trivial

end

end Script

theorem Token.kind_ne_of_operand {token : Token} {e : Expr} (h : token.operand = .ok e) :
    token.kind ≠ .endOfInput := by
  intro hk
  simp [operand, hk] at h

theorem Grammar.kind_ne_of_lt_power {limit : Precedence} {kind : TokenKind}
    (h : limit < standard.power kind) : kind ≠ .endOfInput := by
  rintro rfl
  cases limit <;> revert h <;> decide

namespace Routine

variable {α : Type} {stream : TokenStream}

theorem careful_form (kind : StatementForm) :
    (form kind).script.Careful ((form kind).Below stream) stream := by
  cases kind with
  | binding =>
    refine Script.careful_call (by simp [Ready]) (by decide) rfl ?_
    simp [Script.Careful, Ready]
  | declaration =>
    refine Script.careful_call (by simp [Ready]) (by decide) rfl ?_
    simp [Script.Careful, Ready]
  | declarationOrRule =>
    simp only [script, Script.Careful]
    split <;> exact Script.careful_call trivial (by decide) rfl fun _ _ => trivial
  | rule =>
    refine Script.careful_call trivial (by decide) rfl ?_
    simp [Script.Careful, Ready]
  | conditional =>
    refine Script.careful_call (by simp [Ready]) (by decide) rfl ?_
    refine fun word rest => ⟨by simp [Ready], fun _ _ _ => ⟨trivial, fun _ _ _ =>
      ⟨by simp [Ready], fun _ _ _ => ⟨trivial, fun body behind _ => ?_⟩⟩⟩⟩
    simp only [Script.Careful]
    split
    · next he => exact ⟨by simp [he], trivial, fun _ _ _ => trivial⟩
    · trivial

/-- Every routine takes no closing token and calls only what lies below it. -/
theorem careful_script (routine : Routine α) (h : routine.Ready stream) :
    routine.script.Careful (routine.Below stream) stream := by
  cases routine with
  | expect kind =>
    unfold script
    exact Script.careful_token h _
  | expectFor message kind =>
    unfold script
    exact Script.careful_token h _
  | primary =>
    simp only [script, Script.Careful]
    split
    · next he => exact ⟨Token.kind_ne_of_operand he, trivial⟩
    · trivial
  | expr limit =>
    simp only [script, Script.Careful]
    split
    · exact Script.careful_call trivial (by simp [rank]) rfl
        fun _ _ => ⟨trivial, fun _ _ _ => trivial⟩
    · trivial
  | operators limit left =>
    simp only [script, Script.Careful]
    split
    · next hp =>
      exact Script.careful_call (Grammar.kind_ne_of_lt_power hp) (by simp [rank]) rfl
        fun _ _ => ⟨trivial, fun _ _ _ => trivial⟩
    · trivial
  | operation left limit =>
    simp only [script, Script.Careful]
    refine ⟨h, Script.Careful.below ?_ (TokenStream.size_advance_lt h)⟩
    split
    · exact ⟨trivial, fun _ _ _ => trivial⟩
    · trivial
  | selector =>
    simp only [script, Script.Careful]
    split
    · next hs => exact ⟨(Token.isOneOf_selectorKinds_iff.mp hs).kind_ne, trivial⟩
    · trivial
  | selectors =>
    simp only [script, Script.Careful]
    split
    · next hc =>
      have hk : stream.current.kind ≠ .endOfInput := by simp [hc]
      refine ⟨hk, Script.Careful.below ?_ (TokenStream.size_advance_lt hk)⟩
      simp [Script.Careful, Ready]
    · trivial
  | block =>
    refine Script.careful_call (by simp [Ready]) (by decide) rfl ?_
    simp [Script.Careful, Ready]
  | items =>
    simp only [script, Script.Careful]
    split
    · trivial
    · refine Script.careful_call trivial (by decide) rfl ?_
      simp [Script.Careful, Ready]
  | form kind => exact careful_form kind
  | statement =>
    simp only [script, Script.Careful]
    split
    · next kind _ =>
      refine Script.careful_call trivial ?_ rfl fun _ _ => trivial
      cases kind <;> decide
    · trivial
  | statements =>
    simp only [script, Script.Careful]
    split
    · trivial
    · refine Script.careful_call trivial (by decide) rfl ?_
      simp [Script.Careful, Ready]
  | document file =>
    exact ⟨⟨trivial, depth_lt_of_rank (by simp [rank])⟩, fun _ _ _ => trivial⟩

end Routine

def TokenReader.after {α : Type} (reader : TokenReader α) (stream : TokenStream) : TokenStream :=
  match reader stream with
  | .ok _ rest => rest
  | .error _ rest => rest

section Runs

variable {α : Type} {stream rest : TokenStream}

theorem TokenReader.after_of_ok {reader : TokenReader α} {a : α}
    (h : reader stream = .ok a rest) : reader.after stream = rest := by
  rw [after, h]

theorem TokenReader.after_of_error {reader : TokenReader α} {fault : Fault}
    (h : reader stream = .error fault rest) : reader.after stream = rest := by
  rw [after, h]

/-- A careful script passes what its calls pass. -/
theorem Script.Careful.passes {allowed : {β : Type} → Routine β → TokenStream → Prop}
    (hp : ∀ {β : Type} {callee : Routine β} {stream}, allowed callee stream →
      stream.Passes (callee.read.after stream))
    {script : Script α} (h : script.Careful allowed stream) :
    stream.Passes (script.run.after stream) := by
  induction script generalizing stream with
  | done a => exact .refl stream
  | fail fault => exact .refl stream
  | look next ih => exact ih stream h
  | take next ih => exact (TokenStream.Passes.advance h.1).trans (ih _ h.2)
  | call callee next ih =>
    have hc := hp h.1
    cases hr : callee.read stream with
    | ok b rest =>
      have hn := ih b (h.2 b rest hr)
      rw [after_of_ok hr] at hc
      rw [run, after, bind_of_ok hr]
      exact hc.trans hn
    | error fault rest =>
      rw [after_of_error hr] at hc
      rwa [run, after_of_error (bind_of_error hr)]

/-- A routine moves the stream forward, and not past a closing token, also when it
fails. -/
theorem Routine.passes_read (routine : Routine α) (h : routine.Ready stream) :
    stream.Passes (routine.read.after stream) := by
  -- What a routine calls lies below it, so the induction is on the depth of calls.
  induction hn : routine.depth stream using Nat.strongRecOn generalizing α stream with
  | ind n ih =>
    subst hn
    have hc := (routine.careful_script h).passes fun {_ callee _} hb => ih _ hb.2 callee hb.1 rfl
    rwa [TokenReader.after, run_script] at hc

end Runs

section Nesting

variable {α : Type} {stream rest : TokenStream}

/-- Run a script with an answer, if there is one, to each of its calls. -/
def Script.runWith
    (answer : {β : Type} → Routine β → TokenStream → Option (EStateM.Result Fault TokenStream β)) :
    Script α → TokenStream → Option (EStateM.Result Fault TokenStream α)
  | done a, stream => some (.ok a stream)
  | fail fault, stream => some (.error fault stream)
  | look next, stream => (next stream).runWith answer stream
  | take next, stream => (next stream.current).runWith answer stream.advance
  | call routine next, stream =>
    match answer routine stream with
    | none => none
    | some (.error fault rest) => some (.error fault rest)
    | some (.ok b rest) => (next b).runWith answer rest

/-- Run a routine whose calls nest less deeply than the given number. There is no result
where they nest more deeply. -/
def Routine.exec : Nat → {α : Type} → Routine α → TokenStream →
    Option (EStateM.Result Fault TokenStream α)
  | 0, _, _, _ => none
  | limit + 1, _, routine, stream => routine.script.runWith (exec limit) stream

theorem Script.Careful.runWith {allowed : {β : Type} → Routine β → TokenStream → Prop}
    {answer : {β : Type} → Routine β → TokenStream → Option (EStateM.Result Fault TokenStream β)}
    (ha : ∀ {β : Type} {callee : Routine β} {stream}, allowed callee stream →
      answer callee stream = some (callee.read stream))
    {script : Script α} (h : script.Careful allowed stream) :
    script.runWith answer stream = some (script.run stream) := by
  induction script generalizing stream with
  | done a => rfl
  | fail fault => rfl
  | look next ih => exact ih stream h
  | take next ih => exact ih _ h.2
  | call callee next ih =>
    rw [Script.runWith, ha h.1, run]
    cases hr : callee.read stream with
    | ok b rest =>
      rw [bind_of_ok hr]
      exact ih b (h.2 b rest hr)
    | error fault rest => rw [bind_of_error hr]

/-- The calls of a routine nest only so deeply, and it ends with what its reader reads. -/
theorem Routine.exec_eq_read (routine : Routine α) (h : routine.Ready stream) {limit : Nat}
    (hd : routine.depth stream < limit) :
    routine.exec limit stream = some (routine.read stream) := by
  induction limit generalizing α stream with
  | zero => exact absurd hd (Nat.not_lt_zero _)
  | succ limit ih =>
    rw [exec, (routine.careful_script h).runWith, run_script]
    intro β callee rest hb
    exact ih callee hb.1 (Nat.lt_of_lt_of_le hb.2 (Nat.le_of_lt_succ hd))

end Nesting

/-- What is left to do of a routine that is running, and the stream it stands at, while
the document of a file is read from `start`. -/
inductive Underway (file : String) (start : TokenStream) :
    {α : Type} → Script α → TokenStream → Prop where
  | start : Underway file start (Routine.document file).script start
  | look {α : Type} {next : TokenStream → Script α} {stream : TokenStream} :
      Underway file start (.look next) stream → Underway file start (next stream) stream
  | take {α : Type} {next : Token → Script α} {stream : TokenStream} :
      Underway file start (.take next) stream →
        Underway file start (next stream.current) stream.advance
  | enter {α β : Type} {routine : Routine β} {next : β → Script α} {stream : TokenStream} :
      Underway file start (.call routine next) stream → Underway file start routine.script stream
  | resume {α β : Type} {routine : Routine β} {next : β → Script α} {stream rest : TokenStream}
      {b : β} :
      Underway file start (.call routine next) stream → routine.read stream = .ok b rest →
        Underway file start (next b) rest

theorem Underway.careful {file : String} {start : TokenStream} {α : Type} {script : Script α}
    {stream : TokenStream} (h : Underway file start script stream) :
    start.Passes stream ∧ script.Careful Routine.Ready stream := by
  induction h with
  | start => exact ⟨.refl start, (Routine.careful_script (.document file) trivial).mono And.left⟩
  | look h ih => exact ih
  | take h ih => exact ⟨ih.1.trans (.advance ih.2.1), ih.2.2⟩
  | enter h ih => exact ⟨ih.1, (Routine.careful_script _ ih.2.1).mono And.left⟩
  | resume h hr ih =>
    have hp := Routine.passes_read _ ih.2.1
    rw [TokenReader.after_of_ok hr] at hp
    exact ⟨ih.1.trans hp, ih.2.2 _ _ hr⟩

/-- A call that is made leaves the stream at its position or later, and a routine that
returns without having been a loop leaves it later. -/
theorem Underway.call {file : String} {start : TokenStream} {α β : Type} {routine : Routine β}
    {next : β → Script α} {stream : TokenStream} {position : Nat}
    (h : Underway file start (.call routine next) stream) (hp : start.At position stream) :
    ∃ later, start.At later (routine.read.after stream) ∧ position ≤ later ∧
      ∀ b rest, routine.read stream = .ok b rest → routine.repeats = false →
        position < later := by
  obtain ⟨hs, hr, -⟩ := h.careful
  have hread := routine.passes_read hr
  obtain ⟨later, hl⟩ := (hs.trans hread).at
  refine ⟨later, hl, hp.le hl hread, fun b rest hb hn => ?_⟩
  rw [TokenReader.after_of_ok hb] at hl
  have := Routine.size_lt_of_read hr hn hb
  have := hp.size_add
  have := hl.size_add
  omega

/-- The parser always makes progress. Its tokens are the given ones, and the last of them
is a closing one. Wherever it stands while it reads, that is one of its tokens and not past
the first closing one. No call moves it back, and a call of a routine that is no loop
moves it on when it returns. And every routine ends, the loops over statements, items,
selectors and operators among them: its calls, which for a loop are its rounds, nest at
most so deeply. -/
theorem reading_progresses (file : String) (given : List Token) :
    let start := TokenStream.ofTokens file given
    (start.tokens = given ∨ start.tokens = given ++ [start.ending]) ∧
    start.tokens.getLast? = some start.ending ∧
    start.At 0 start ∧
    (∀ {α : Type} {script : Script α} {stream : TokenStream},
      Underway file start script stream → ∃ position, start.At position stream) ∧
    (∀ {α β : Type} {routine : Routine β} {next : β → Script α} {stream : TokenStream}
        {position : Nat},
      Underway file start (.call routine next) stream → start.At position stream →
        ∃ later, start.At later (routine.read.after stream) ∧ position ≤ later ∧
          ∀ b rest, routine.read stream = .ok b rest → routine.repeats = false →
            position < later) ∧
    ∀ {α : Type} (routine : Routine α) (stream : TokenStream), routine.Ready stream →
      routine.exec (7 * stream.size + 7) stream = some (routine.read stream) := by
  intro start
  refine ⟨TokenStream.tokens_ofTokens file given, List.getLast?_concat, ?_,
    fun h => h.careful.1.at, fun h hp => h.call hp, fun routine stream h => ?_⟩
  · exact ⟨rfl, Nat.lt_of_le_of_lt (Nat.zero_le _) start.firstEnd_lt, Nat.zero_le _⟩
  · exact routine.exec_eq_read h (Nat.add_lt_add_left routine.rank_lt _)

end Stylesheet
