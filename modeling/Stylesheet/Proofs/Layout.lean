import Stylesheet.Proofs.Cuts
import Stylesheet.Proofs.Relocation

/-! # Layout

Blanks and comments between tokens change where the tokens stand and nothing
else. At the end of a source they do so unless a line comment is still open there.
Sources with the same words compile to the same style sheet, or are refused for
the same reasons.
-/

namespace Stylesheet

open Text Lexicon Pattern

/-! ## Pieces of layout -/

/-- A piece of layout before the rest of a source: all the blanks that follow, a
line comment up to the line break or the end of the source, or a block comment
up to the first mark that closes it. -/
inductive Skips : List Char → List Char → Prop where

  | blanks {cs rest : List Char} : cs ≠ [] → (∀ c ∈ cs, isBlank c = true) →
      (∀ c ∈ rest.head?, isBlank c = false) → Skips cs rest

  | line {cs rest : List Char} : '\n' ∉ cs → (∀ c ∈ rest.head?, c = '\n') →
      Skips (['/', '/'] ++ cs) rest

  | block {cs rest : List Char} : ¬ ['*', '/'] <:+: cs →
      Skips (['/', '*'] ++ cs ++ ['*', '/']) rest

/-- What can stand between tokens: blanks, a line comment with the line break that
ends it, and a block comment. -/
inductive IsLayout : List Char → Prop where

  | blanks {cs : List Char} : cs ≠ [] → (∀ c ∈ cs, isBlank c = true) → IsLayout cs

  | line {cs : List Char} : '\n' ∉ cs → IsLayout (['/', '/'] ++ cs ++ ['\n'])

  | block {cs : List Char} : ¬ ['*', '/'] <:+: cs → IsLayout (['/', '*'] ++ cs ++ ['*', '/'])

namespace Pattern

variable {p : Char → Bool} {mark cs text rest : List Char}

theorem not_of_split?_runOf (h : (runOf p).split? cs = some (text, rest)) :
    ∀ c ∈ rest.head?, p c = false := by
  obtain ⟨first, second, between, -, hr, -⟩ := of_split?_seq h
  exact not_of_split?_run hr

theorem of_cutThrough? (hm : mark ≠ []) (h : cutThrough? mark cs = some (text, rest)) :
    ∃ before, text = before ++ mark ∧ ¬ mark <:+: before := by
  induction cs generalizing text with
  | nil => simp [cutThrough?, hm] at h
  | cons c cs ih =>
    rw [cutThrough?] at h
    split at h
    · cases h
      exact ⟨[], rfl, by simpa using hm⟩
    · next hn =>
      obtain ⟨⟨text', rest'⟩, hc, he⟩ := Option.map_eq_some_iff.mp h
      cases he
      obtain ⟨before, rfl, hb⟩ := ih hc
      refine ⟨c :: before, rfl, ?_⟩
      rw [List.infix_cons_iff, not_or]
      refine ⟨fun hp => hn ?_, hb⟩
      rw [List.isPrefixOf_iff_prefix, ← append_of_cutThrough? hc, List.append_assoc]
      exact hp.trans (List.prefix_append (c :: before) _)

end Pattern

variable {front text rest layout : List Char} {words : List (TokenKind × String)}

theorem cutThrough?_comment {cs : List Char} (h : ¬ ['*', '/'] <:+: cs) (rest : List Char) :
    cutThrough? ['*', '/'] (cs ++ '*' :: '/' :: rest) = some (cs ++ ['*', '/'], rest) := by
  induction cs with
  | nil => simp [cutThrough?]
  | cons c cs ih =>
    have hn : ¬ ['*', '/'] <+: c :: cs ++ '*' :: '/' :: rest := by
      rw [List.cons_append, List.cons_prefix_cons]
      rintro ⟨rfl, hp⟩
      cases cs with
      | nil => simp at hp
      | cons d cs =>
        obtain ⟨rfl, -⟩ := List.cons_prefix_cons.mp hp
        exact h ⟨[], cs, rfl⟩
    have hc : ¬ ['*', '/'] <:+: cs := fun hi => h (hi.trans (List.suffix_cons c cs).isInfix)
    rw [List.cons_append, cutThrough?, if_neg (by rwa [List.isPrefixOf_iff_prefix]), ih hc]
    rfl

theorem Skips.next? (h : Skips text rest) :
    Lexeme.next? (text ++ rest) = some ⟨none, text, rest⟩ := by
  cases h with
  | blanks hn hb hr => exact Lexeme.next?_of_blanks (split?_runOf_append hn hb hr)
  | @line cs _ hn hr =>
    have hs : (run (· ≠ '\n')).split? (cs ++ rest) = some (cs, rest) := by
      apply split?_run_append
      · intro c hc
        simpa using ne_of_mem_of_not_mem hc hn
      · intro c hc
        simp [hr c hc]
    rw [List.append_assoc]
    exact Lexeme.next?_of_line (split?_seq (split?_word_append ['/', '/'] _) hs)
  | @block cs _ hn =>
    have hs : (through ['*', '/']).split? (cs ++ '*' :: '/' :: rest) =
      some (cs ++ ['*', '/'], rest) := cutThrough?_comment hn rest
    have hl := Lexeme.next?_of_block (split?_seq (split?_word_append ['/', '*'] _) hs)
    rwa [List.append_assoc, List.append_assoc, List.append_assoc]

theorem skips_of_next? {cs : List Char} (h : Lexeme.next? cs = some ⟨none, text, rest⟩) :
    Skips text rest := by
  obtain ⟨rule, hm, hs, hk⟩ := Lexeme.exists_rule_of_next? h
  rw [← List.take_append_drop 3 rules, List.mem_append] at hm
  have hm := hm.resolve_right fun hm => ne_none_of_mem_rules rule hm hk
  simp only [rules, List.take_succ_cons, List.take_zero, List.mem_cons, List.not_mem_nil,
    or_false] at hm
  rcases hm with rfl | rfl | rfl
  · obtain ⟨hn, hb⟩ := of_split?_runOf hs
    exact .blanks hn hb (not_of_split?_runOf hs)
  · obtain ⟨first, second, between, hw, hr, he⟩ := of_split?_seq hs
    obtain rfl := of_split?_word hw
    subst he
    refine .line (fun hc => ?_) fun c hc => ?_
    · simpa using of_split?_run hr _ hc
    · simpa using not_of_split?_run hr c hc
  · obtain ⟨first, second, between, hw, hr, he⟩ := of_split?_seq hs
    obtain rfl := of_split?_word hw
    obtain ⟨before, rfl, hb⟩ := of_cutThrough? (by simp) hr
    subst he
    rw [← List.append_assoc]
    exact .block hb

theorem exists_cons_of_blanks {cs : List Char} (hn : cs ≠ []) (hb : ∀ c ∈ cs, isBlank c = true) :
    ∃ c cs', cs = c :: cs' ∧ opensLayout c = true := by
  obtain ⟨c, cs, rfl⟩ := List.exists_cons_of_ne_nil hn
  exact ⟨c, cs, rfl, by simp [opensLayout, hb c (by simp)]⟩

theorem Skips.exists_cons (h : Skips text rest) :
    ∃ c cs, text = c :: cs ∧ opensLayout c = true := by
  cases h with
  | blanks hn hb _ => exact exists_cons_of_blanks hn hb
  | line => exact ⟨_, _, rfl, rfl⟩
  | block => exact ⟨_, _, rfl, rfl⟩

theorem IsLayout.exists_cons (h : IsLayout layout) :
    ∃ c cs, layout = c :: cs ∧ opensLayout c = true := by
  cases h with
  | blanks hn hb => exact exists_cons_of_blanks hn hb
  | line => exact ⟨_, _, rfl, rfl⟩
  | block => exact ⟨_, _, rfl, rfl⟩

/-! ## Reading across layout -/

namespace Reads

theorem blanks {cs : List Char} (h : ∀ c ∈ cs, isBlank c = true) (hr : Reads rest words) :
    Reads (cs ++ rest) words := by
  induction cs with
  | nil => exact hr
  | cons c cs ih =>
    obtain ⟨hc, hcs⟩ := List.forall_mem_cons.mp h
    exact (ih hcs).blank hc

theorem lexeme {cs text : List Char} {kind? : Option TokenKind}
    (h : Lexeme.next? cs = some ⟨kind?, text, rest⟩) (hr : Reads rest words) :
    Reads cs ((kind?.map fun kind => (kind, String.ofList text)).toList ++ words) := by
  cases kind? with
  | none => exact .layout h hr
  | some kind => exact .word h hr

theorem of_next? {cs text : List Char} {kind? : Option TokenKind} (hr : Reads cs words)
    (h : Lexeme.next? cs = some ⟨kind?, text, rest⟩) :
    ∃ later, Reads rest later ∧
      words = (kind?.map fun kind => (kind, String.ofList text)).toList ++ later := by
  cases hr with
  | nil => cases h
  | layout hl hr =>
    cases hl.symm.trans h
    exact ⟨words, hr, rfl⟩
  | word hl hr =>
    cases hl.symm.trans h
    exact ⟨_, hr, rfl⟩

end Reads

theorem IsLayout.reads (h : IsLayout layout) (hr : Reads rest words) :
    Reads (layout ++ rest) words := by
  cases h with
  | blanks _ hb => exact hr.blanks hb
  | line hn =>
    rw [List.append_assoc]
    exact .layout (Skips.line hn (by simp)).next? (hr.blank rfl)
  | block hn => exact .layout (Skips.block hn).next? hr

/-- Layout that is added later does not reach a lexeme, unless the lexeme is itself
layout and the text was over with it. -/
theorem Lexeme.next?_append {kind? : Option TokenKind} {c : Char}
    (h : next? (text ++ rest) = some ⟨kind?, text, rest⟩) (hr : kind? = none → rest ≠ [])
    (hc : opensLayout c = true) (more : List Char) :
    next? (text ++ (rest ++ c :: more)) = some ⟨kind?, text, rest ++ c :: more⟩ := by
  cases kind? with
  | none => exact next?_layout_append h (hr rfl) _
  | some kind => exact next?_token_append h hc more

theorem EndsToken.ne_nil (h : EndsToken front rest) : front ≠ [] := by
  cases h with
  | token h => exact Lexeme.ne_nil_of_next? h
  | lexeme h _ => simp [Lexeme.ne_nil_of_next? h]

theorem EndsToken.reads (h : EndsToken front rest) (hl : IsLayout layout)
    (hr : Reads (front ++ rest) words) : Reads (front ++ (layout ++ rest)) words := by
  obtain ⟨c, cs, rfl, hc⟩ := hl.exists_cons
  induction h generalizing words with
  | @token text rest kind h =>
    obtain ⟨later, hw, rfl⟩ := hr.of_next? h
    have hn := Lexeme.next?_append (Lexeme.next?_of_cut h List.nil_prefix) nofun hc (cs ++ rest)
    exact .lexeme hn (hl.reads hw)
  | @lexeme text front rest kind? h he ih =>
    rw [List.append_assoc] at hr ⊢
    obtain ⟨later, hw, rfl⟩ := hr.of_next? h
    have hp := Lexeme.next?_of_cut h (List.prefix_append front rest)
    exact .lexeme (Lexeme.next?_append hp (fun _ => he.ne_nil) hc (cs ++ rest)) (ih hw)

theorem reads_of_scan {cursor : Cursor} {cs : List Char} (h : (scan cursor cs).rest = []) :
    Reads cs ((scan cursor cs).tokens.map Token.word) := by
  induction cursor, cs using scan.induct with
  | case1 cursor cs hn =>
    rw [scan_of_next?_none hn] at h ⊢
    obtain rfl : cs = [] := h
    exact .nil
  | case2 cursor cs lexeme hn hlt ih =>
    rw [scan_of_next? hn] at h ⊢
    obtain ⟨kind?, text, rest⟩ := lexeme
    cases kind? with
    | none => exact .layout hn (ih h)
    | some kind => exact .word hn (ih h)

theorem reads_of_tokenize {file source : String} {tokens : List Token}
    (h : tokenize file source = .ok tokens) :
    ∃ words, Reads source.toList words ∧
      tokens.map Token.word = words ++ [(.endOfInput, "EOF")] := by
  obtain ⟨hr, rfl⟩ := tokenize_eq_ok_iff.mp h
  refine ⟨_, reads_of_scan hr, ?_⟩
  rw [List.map_append]
  rfl

theorem exists_tokenize_of_reads (h : Reads text words) (file : String) :
    ∃ tokens, tokenize file (String.ofList text) = .ok tokens ∧
      tokens.map Token.word = words ++ [(.endOfInput, "EOF")] := by
  obtain ⟨hr, hw⟩ := h.scan (.start file)
  rw [← String.toList_ofList (l := text)] at hr hw
  refine ⟨_, tokenize_eq_ok_iff.mpr ⟨hr, rfl⟩, ?_⟩
  rw [List.map_append, hw]
  rfl

/-- A text has the words of these tokens, wherever they stand in it. -/
def HasWordsOf (file : String) (text : List Char) (tokens : List Token) : Prop :=
  ∃ tokens', tokenize file (String.ofList text) = .ok tokens' ∧
    tokens'.map Token.word = tokens.map Token.word

theorem hasWordsOf_of_reads {tokens : List Token} (h : Reads text words)
    (ht : tokens.map Token.word = words ++ [(.endOfInput, "EOF")]) (file : String) :
    HasWordsOf file text tokens := by
  obtain ⟨tokens', ht', hw⟩ := exists_tokenize_of_reads h file
  exact ⟨tokens', ht', hw.trans ht.symm⟩

/-! ## The end of a source -/

/-- A line comment is still open where the text is over: no line break follows its
mark, and what stands before the mark is read by itself. -/
def LineOpen (file : String) (text : List Char) : Prop :=
  ∃ front comment tokens, text = front ++ (['/', '/'] ++ comment) ∧ '\n' ∉ comment ∧
    tokenize file (String.ofList front) = .ok tokens

section Ends

variable {file : String} {comment : List Char}

theorem lineOpen_iff : LineOpen file text ↔ ∃ front comment words,
    text = front ++ (['/', '/'] ++ comment) ∧ '\n' ∉ comment ∧ Reads front words := by
  constructor
  · rintro ⟨front, comment, tokens, he, hc, ht⟩
    obtain ⟨words, hr, -⟩ := reads_of_tokenize ht
    rw [String.toList_ofList] at hr
    exact ⟨front, comment, words, he, hc, hr⟩
  · rintro ⟨front, comment, words, he, hc, hr⟩
    obtain ⟨tokens, ht, -⟩ := exists_tokenize_of_reads hr file
    exact ⟨front, comment, tokens, he, hc, ht⟩

/-- Where layout follows a text, the text is read as it was, up to the layout that
it may itself be over with. -/
structure ReadsUpTo (text front tail : List Char) (words : List (TokenKind × String)) : Prop where
  append_eq : text = front ++ tail
  skips : tail = [] ∨ Skips tail []
  reads : Reads front words
  reads_iff {c : Char} {more : List Char} {words' : List (TokenKind × String)} :
    opensLayout c = true → (Reads (text ++ c :: more) words' ↔
      ∃ later, Reads (tail ++ c :: more) later ∧ words' = words ++ later)

theorem ReadsUpTo.lexeme {tail : List Char} {kind? : Option TokenKind}
    (h : ReadsUpTo rest front tail words)
    (hl : Lexeme.next? (text ++ rest) = some ⟨kind?, text, rest⟩) (hn : kind? = none → rest ≠ []) :
    ReadsUpTo (text ++ rest) (text ++ front) tail
      ((kind?.map fun kind => (kind, String.ofList text)).toList ++ words) where
  append_eq := by rw [h.append_eq, List.append_assoc]
  skips := h.skips
  reads := .lexeme (Lexeme.next?_of_cut hl ⟨tail, h.append_eq.symm⟩) h.reads
  reads_iff {c more words'} hc := by
    have hl := Lexeme.next?_append hl hn hc more
    rw [List.append_assoc]
    constructor
    · intro hr
      obtain ⟨_, hrest, rfl⟩ := hr.of_next? hl
      obtain ⟨later, htail, rfl⟩ := (h.reads_iff hc).mp hrest
      exact ⟨later, htail, (List.append_assoc ..).symm⟩
    · rintro ⟨later, hr, rfl⟩
      rw [List.append_assoc]
      exact .lexeme hl ((h.reads_iff hc).mpr ⟨later, hr, rfl⟩)

theorem Reads.exists_readsUpTo (h : Reads text words) :
    ∃ front tail, ReadsUpTo text front tail words := by
  induction h with
  | nil => exact ⟨[], [], rfl, .inl rfl, .nil, fun _ => by simp⟩
  | @word cs text rest kind words hl _ ih =>
    obtain ⟨front, tail, h⟩ := ih
    obtain rfl := Lexeme.append_of_next? hl
    exact ⟨text ++ front, tail, h.lexeme hl nofun⟩
  | @layout cs text rest words hl hr ih =>
    obtain rfl := Lexeme.append_of_next? hl
    by_cases hn : rest = []
    · subst hn
      cases hr with
      | nil => exact ⟨[], text, by simp, .inr (skips_of_next? hl), .nil, fun _ => by simp⟩
      | layout h | word h => cases h
    · obtain ⟨front, tail, h⟩ := ih
      exact ⟨text ++ front, tail, h.lexeme hl fun _ => hn⟩

/-- Layout behind a text does not change what is read, unless a line comment is
still open there. -/
theorem Reads.append_layout (h : Reads text words) (ho : ¬ LineOpen file text)
    (hl : IsLayout layout) : Reads (text ++ layout) words := by
  obtain ⟨front, tail, hf⟩ := h.exists_readsUpTo
  have hr : Reads layout [] := by simpa using hl.reads .nil
  have ht : Reads (tail ++ layout) [] := by
    rcases hf.skips with rfl | hs
    · exact hr
    · cases hs with
      | blanks _ hb _ => exact hr.blanks hb
      | @line comment _ hn _ =>
        exact absurd (lineOpen_iff.mpr ⟨_, comment, _, hf.append_eq, hn, hf.reads⟩) ho
      | block hn => exact (IsLayout.block hn).reads hr
  obtain ⟨c, cs, rfl, hc⟩ := hl.exists_cons
  exact (hf.reads_iff hc).mpr ⟨[], ht, (List.append_nil words).symm⟩

/-- A line comment takes in the mark that opens a block comment, and the mark that
closes it is left over. -/
theorem not_reads_of_line (h : '\n' ∉ comment) :
    ¬ Reads (['/', '/'] ++ comment ++ ['\n', '*', '/']) words := by
  intro hr
  obtain ⟨later, hl, -⟩ := hr.of_next? (Skips.line h (by simp)).next?
  exact absurd (hl.scan (.start "")).1 (by decide +kernel)

theorem LineOpen.not_reads (h : LineOpen file text) :
    ¬ Reads (text ++ ['/', '*', '\n', '*', '/']) words := by
  obtain ⟨front, comment, words', rfl, hc, hf⟩ := lineOpen_iff.mp h
  obtain ⟨_, tail, hf⟩ := hf.exists_readsUpTo
  have hn : '\n' ∉ comment ++ ['/', '*'] := by simp [hc]
  intro hr
  rw [List.append_assoc] at hr
  obtain ⟨later, hr, -⟩ := (hf.reads_iff rfl).mp hr
  rcases hf.skips with rfl | hs
  · exact not_reads_of_line hn (by simpa using hr)
  · cases hs with
    | blanks hne hb _ =>
      obtain ⟨later, hr, -⟩ := hr.of_next? (Skips.blanks hne hb (by rintro _ ⟨⟩; rfl)).next?
      exact not_reads_of_line hn (by simpa using hr)
    | @line cs _ hcs _ =>
      have hn' : '\n' ∉ cs ++ '/' :: '/' :: comment ++ ['/', '*'] := by simp [hcs, hc]
      exact not_reads_of_line hn' (by simpa using hr)
    | block hcs =>
      obtain ⟨later, hr, -⟩ := hr.of_next? (Skips.block hcs).next?
      exact not_reads_of_line hn (by simpa using hr)

end Ends

/-! ## Sources with the same words -/

/-- What a source is refused for, wherever that was found. -/
def Refusal.gist : Refusal → Cause ⊕ List (TreePath × String)
  | faulty fault => .inl fault.cause
  | problems diagnostics => .inr (diagnostics.map fun d => (d.path, d.message))

theorem compile_of_fault {file source : String} {fault : Fault}
    (h : parse file source = .error fault) :
    (compile file source).1 = .error (.faulty fault) := by
  rw [← fst_parseLogged] at h
  rcases hp : parseLogged file source with ⟨result, log⟩
  rw [hp] at h
  obtain rfl : result = .error fault := h
  simp only [compile, hp]

theorem compile_of_problems {file source : String} {root : Node} {problem : Diagnostic}
    {problems : List Diagnostic} (h : parse file source = .ok root)
    (hc : check root = .ok (problem :: problems)) :
    (compile file source).1 = .error (.problems (problem :: problems)) := by
  rw [← fst_parseLogged] at h
  rcases hp : parseLogged file source with ⟨result, log⟩
  rw [hp] at h
  obtain rfl : result = .ok root := h
  simp only [compile, hp, checkLogged, hc]

section SameWords

variable {f : Position → Position} {file file' source source' : String}

/-- Documents that differ in positions only are compiled alike. -/
theorem compile_gist_of_relocate {children children' : List Node} {span span' : Span}
    (hp : parse file source = .ok (.document children span))
    (hp' : parse file' source' = .ok (.document children' span'))
    (h : children.map (Node.relocate f) = children'.map (Node.relocate f)) :
    (compile file source).1.mapError Refusal.gist =
      (compile file' source').1.mapError Refusal.gist := by
  obtain ⟨reports, hc, hr⟩ := check_relocate f children span span
  obtain ⟨reports', hc', hr'⟩ := check_relocate f children' span' span
  rw [h, hr', Except.ok.injEq] at hr
  cases reports with
  | nil =>
    obtain rfl : reports' = [] := List.map_eq_nil_iff.mp hr
    obtain ⟨_, he⟩ := compile_of_accepted hp hc
    obtain ⟨_, he'⟩ := compile_of_accepted hp' hc'
    rw [he, he', ← produce_relocate f children span span, h, produce_relocate f children' span']
  | cons problem problems =>
    cases reports' with
    | nil => cases hr
    | cons problem' problems' =>
      have hg := congrArg (List.map fun d : Diagnostic => (d.path, d.message)) hr
      rw [List.map_map, List.map_map] at hg
      rw [compile_of_problems hp hc, compile_of_problems hp' hc']
      exact congrArg (Except.error ∘ Sum.inr) hg.symm

theorem parseTokens_of_ok {tokens : List Token} {children : List Node} {rest : TokenStream}
    (h : readStatements .standard (.ofTokens file tokens) = .ok children rest) :
    parseTokens file tokens = .ok (.document children ⟨⟨0, file⟩, rest.current.span.start⟩) := by
  rw [parseTokens, readDocument, bind_of_ok h, bind_of_ok (TokenReader.current_run rest)]
  rfl

theorem parseTokens_of_error {tokens : List Token} {fault : Fault} {rest : TokenStream}
    (h : readStatements .standard (.ofTokens file tokens) = .error fault rest) :
    parseTokens file tokens = .error fault := by
  rw [parseTokens, readDocument, bind_of_error h]

theorem parse_of_tokenize {tokens : List Token} (h : tokenize file source = .ok tokens) :
    parse file source = parseTokens file tokens := by
  rw [parse, h]
  rfl

theorem TokenStream.ofTokens_relocate {tokens : List Token} (h : tokens ≠ [])
    (file file' : String) (f : Position → Position) :
    (ofTokens file tokens).relocate f = ofTokens file' (tokens.map (.relocate f)) := by
  obtain ⟨before, last, rfl⟩ : ∃ before last, tokens = before ++ [last] :=
    ⟨_, _, (List.dropLast_concat_getLast h).symm⟩
  by_cases hk : last.kind = .endOfInput
  · simp [ofTokens, hk, relocate, Token.relocate]
  · simp [ofTokens, hk, relocate, Token.relocate, Span.relocate]

theorem relocate_eq_of_words {tokens tokens' : List Token} (position : Position)
    (h : tokens.map Token.word = tokens'.map Token.word) :
    tokens.map (Token.relocate fun _ => position) =
      tokens'.map (Token.relocate fun _ => position) := by
  have hw (tokens : List Token) : tokens.map (Token.relocate fun _ => position) =
      (tokens.map Token.word).map fun word =>
        (⟨word.1, word.2, ⟨position, position⟩⟩ : Token) := by
    rw [List.map_map]
    rfl
  rw [hw tokens, h, hw tokens']

theorem compile_gist_of_words {tokens tokens' : List Token}
    (ht : tokenize file source = .ok tokens) (ht' : tokenize file' source' = .ok tokens')
    (h : tokens.map Token.word = tokens'.map Token.word) :
    (compile file source).1.mapError Refusal.gist =
      (compile file' source').1.mapError Refusal.gist := by
  have hp := parse_of_tokenize ht
  have hp' := parse_of_tokenize ht'
  have hn : tokens ≠ [] := by
    obtain ⟨-, rfl⟩ := tokenize_eq_ok_iff.mp ht
    simp
  have hn' : tokens' ≠ [] := by
    obtain ⟨-, rfl⟩ := tokenize_eq_ok_iff.mp ht'
    simp
  -- Both lists are read as the list in which every position is unknown.
  have hm := moves_readStatements (fun _ => .unknown) .standard (.ofTokens file tokens)
  have hm' := moves_readStatements (fun _ => .unknown) .standard (.ofTokens file' tokens')
  rw [TokenStream.ofTokens_relocate hn file file, relocate_eq_of_words .unknown h] at hm
  rw [TokenStream.ofTokens_relocate hn' file' file, hm] at hm'
  cases hr : readStatements .standard (.ofTokens file tokens) with
  | ok children rest =>
    rw [parseTokens_of_ok hr] at hp
    cases hr' : readStatements .standard (.ofTokens file' tokens') with
    | ok children' rest' =>
      rw [parseTokens_of_ok hr'] at hp'
      rw [hr, hr', relocated, relocated, EStateM.Result.ok.injEq] at hm'
      exact compile_gist_of_relocate hp hp' hm'.1
    | error fault' rest' =>
      rw [hr, hr'] at hm'
      cases hm'
  | error fault rest =>
    rw [parseTokens_of_error hr] at hp
    cases hr' : readStatements .standard (.ofTokens file' tokens') with
    | ok children' rest' =>
      rw [hr, hr'] at hm'
      cases hm'
    | error fault' rest' =>
      rw [parseTokens_of_error hr'] at hp'
      rw [hr, hr', relocated, relocated, EStateM.Result.error.injEq] at hm'
      have hc := congrArg Fault.cause hm'.1
      change fault.cause = fault'.cause at hc
      simp only [compile_of_fault hp, compile_of_fault hp', Except.mapError, Refusal.gist, hc]

end SameWords

/-- Layout does not matter. Before a source and behind each token that is read
from it, layout leaves the words of the source. The text through a token is given
by reading it alone: it holds the tokens so far and is over where the last one
stops. Behind the whole source, where its closing token is, layout leaves the words
unless a line comment is still open there. Sources with the same words, in whatever
files, compile to the same style sheet or are refused for the same cause or the
same problems. -/
theorem layout_irrelevant :
    (∀ {file source : String} {tokens : List Token}, tokenize file source = .ok tokens →
      (∀ {layout}, IsLayout layout → HasWordsOf file (layout ++ source.toList) tokens) ∧
      (∀ {before after : List Token} {token ending : Token},
        tokens = before ++ token :: after ++ [ending] →
        ∃ front rest, source.toList = front ++ rest ∧ token.text.toList <:+ front ∧
          tokenize file (String.ofList front) =
            .ok (before ++ [token, .ending ⟨token.span.stop, token.span.stop⟩]) ∧
          ∀ {layout}, IsLayout layout → HasWordsOf file (front ++ layout ++ rest) tokens) ∧
      ((∀ layout, IsLayout layout → HasWordsOf file (source.toList ++ layout) tokens) ↔
        ¬ LineOpen file source.toList)) ∧
    ∀ {file file' source source' : String} {tokens tokens' : List Token},
      tokenize file source = .ok tokens → tokenize file' source' = .ok tokens' →
      tokens.map Token.word = tokens'.map Token.word →
      (compile file source).1.mapError Refusal.gist =
        (compile file' source').1.mapError Refusal.gist := by
  refine ⟨?_, compile_gist_of_words⟩
  intro file source tokens ht
  obtain ⟨words, hr, hw⟩ := reads_of_tokenize ht
  refine ⟨fun hl => hasWordsOf_of_reads (hl.reads hr) hw file, ?_, ?_, ?_⟩
  · rintro before after token ending rfl
    obtain ⟨-, hs⟩ := tokenize_eq_ok_iff.mp ht
    obtain ⟨front, rest, hf, hc⟩ := exists_cutBehind (List.append_inj_left' hs rfl).symm
    refine ⟨front, rest, hf, hc.suffix, ?_, fun hl => ?_⟩
    · rw [tokenize_eq_ok_iff, String.toList_ofList, hc.scan_eq, hc.stop_eq]
      exact ⟨rfl, by simp [Cursor.span, Cursor.advance]⟩
    · rw [hf] at hr
      rw [List.append_assoc]
      exact hasWordsOf_of_reads (hc.ends.reads hl hr) hw file
  · intro h ho
    obtain ⟨tokens', ht', -⟩ := h _ (@IsLayout.block ['\n'] (by decide))
    obtain ⟨words', hr', -⟩ := reads_of_tokenize ht'
    rw [String.toList_ofList] at hr'
    exact ho.not_reads hr'
  · intro ho layout hl
    exact hasWordsOf_of_reads (hr.append_layout ho hl) hw file

theorem layout_irrelevant_star :
    ∃ tokens, tokenize "a" "p\x7bwidth:2*3px;\x7d" = .ok tokens ∧
      HasWordsOf "a" ("// *\n".toList ++ "p\x7bwidth:2*3px;\x7d".toList) tokens ∧
      (∃ front rest, "p\x7bwidth:2*3px;\x7d".toList = front ++ rest ∧
        "*".toList <:+ front ∧ HasWordsOf "a" (front ++ "/***/".toList ++ rest) tokens) ∧
      HasWordsOf "a" ("p\x7bwidth:2*3px;\x7d".toList ++ "/*\n*/".toList) tokens ∧
      (compile "a" "p\x7bwidth:2*3px;\x7d").1.mapError Refusal.gist =
        (compile "b" "p \x7b width : 2/***/ *3px ;\n\x7d // \u00e9").1.mapError Refusal.gist := by
  let before : List Token := [⟨.lowerName, "p", ⟨⟨0, "a"⟩, ⟨1, "a"⟩⟩⟩,
    ⟨.openBrace, "\x7b", ⟨⟨1, "a"⟩, ⟨2, "a"⟩⟩⟩, ⟨.lowerName, "width", ⟨⟨2, "a"⟩, ⟨7, "a"⟩⟩⟩,
    ⟨.colon, ":", ⟨⟨7, "a"⟩, ⟨8, "a"⟩⟩⟩, ⟨.scalar, "2", ⟨⟨8, "a"⟩, ⟨9, "a"⟩⟩⟩]
  let star : Token := ⟨.star, "*", ⟨⟨9, "a"⟩, ⟨10, "a"⟩⟩⟩
  let after : List Token := [⟨.pixel, "3px", ⟨⟨10, "a"⟩, ⟨13, "a"⟩⟩⟩,
    ⟨.semicolon, ";", ⟨⟨13, "a"⟩, ⟨14, "a"⟩⟩⟩, ⟨.closeBrace, "\x7d", ⟨⟨14, "a"⟩, ⟨15, "a"⟩⟩⟩]
  let tokens : List Token := before ++ star :: after ++ [.ending ⟨⟨15, "a"⟩, ⟨15, "a"⟩⟩]
  have ht : tokenize "a" "p\x7bwidth:2*3px;\x7d" = .ok tokens :=
    mem_toOption.mp (by decide +kernel)
  have hw : ∃ tokens' ∈
      (tokenize "b" "p \x7b width : 2/***/ *3px ;\n\x7d // \u00e9").toOption,
      tokens.map Token.word = tokens'.map Token.word := by
    decide +kernel
  have hl : IsLayout (['/', '/'] ++ [' ', '*'] ++ ['\n']) := .line (by decide)
  have hb : IsLayout (['/', '*'] ++ ['*'] ++ ['*', '/']) := .block (by decide)
  have ho : ¬ LineOpen "a" "p\x7bwidth:2*3px;\x7d".toList := by
    rintro ⟨front, comment, -, he, -⟩
    have hm : '/' ∈ "p\x7bwidth:2*3px;\x7d".toList := by
      rw [he]
      simp
    exact absurd hm (by decide +kernel)
  obtain ⟨tokens', ht', hw⟩ := hw
  obtain ⟨front, rest, hf, hs, -, hi⟩ := (layout_irrelevant.1 ht).2.1 rfl
  exact ⟨_, ht, (layout_irrelevant.1 ht).1 hl, ⟨front, rest, hf, hs, hi hb⟩,
    (layout_irrelevant.1 ht).2.2.mpr ho _ (@IsLayout.block ['\n'] (by decide)),
    layout_irrelevant.2 ht (mem_toOption.mp ht') hw⟩

/-- Behind the closing token a block comment is not passed over when a line comment
is still open there: the line comment takes it in up to the line break, and what is
left of it is not recognised. -/
theorem layout_behind_open_line :
    let closing : Token := .ending ⟨⟨6, "a"⟩, ⟨6, "a"⟩⟩
    let tokens : List Token := [⟨.lowerName, "p", ⟨⟨0, "a"⟩, ⟨1, "a"⟩⟩⟩, closing]
    tokenize "a" "p // c" = .ok tokens ∧ IsLayout ['/', '*', '\n', '*', '/'] ∧
      ¬ HasWordsOf "a" ("p // c".toList ++ ['/', '*', '\n', '*', '/']) tokens := by
  intro closing tokens
  refine ⟨mem_toOption.mp (by decide +kernel), @IsLayout.block ['\n'] (by decide), ?_⟩
  rintro ⟨tokens', ht, -⟩
  have hn : (tokenize "a" (String.ofList
      ("p // c".toList ++ ['/', '*', '\n', '*', '/']))).toOption = none := by
    decide +kernel
  rw [ht] at hn
  cases hn

end Stylesheet
