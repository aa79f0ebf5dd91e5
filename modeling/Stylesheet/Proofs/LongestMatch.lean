import Stylesheet.Proofs.Layout

/-! # The first match is the longest

The rules of the lexicon are tried in order, and the first one that applies
decides. It never takes less than another rule for tokens would: reading by the
first rule is the same as reading the longest word at each place.
-/

namespace Stylesheet

open Text Lexicon Pattern

def reservedWords : List (TokenKind × List Char) :=
  [(.ifWord, ['i', 'f']), (.elseWord, ['e', 'l', 's', 'e']),
   (.trueWord, ['T', 'R', 'U', 'E']), (.falseWord, ['F', 'A', 'L', 'S', 'E'])]

def signs : List (TokenKind × List Char) :=
  [(.assign, [':', '=']), (.colon, [':']), (.semicolon, [';']), (.comma, [',']),
   (.openBrace, ['\x7b']), (.closeBrace, ['\x7d']), (.openBracket, ['[']),
   (.closeBracket, [']']), (.plus, ['+']), (.minus, ['-']), (.star, ['*'])]

def SixHexDigits (cs : List Char) : Prop := cs.length = 6 ∧ ∀ c ∈ cs, isHexDigit c = true

instance (cs : List Char) : Decidable (SixHexDigits cs) :=
  inferInstanceAs (Decidable (cs.length = 6 ∧ ∀ c ∈ cs, isHexDigit c = true))

/-- The texts of the tokens of each kind. -/
inductive Word : TokenKind → List Char → Prop where

  | color {cs : List Char} : SixHexDigits cs → Word .color ('#' :: cs)

  | id {cs : List Char} : cs ≠ [] → (∀ c ∈ cs, isHashChar c = true) → ¬ SixHexDigits cs →
      Word .idSelector ('#' :: cs)

  | className {cs : List Char} : cs ≠ [] → (∀ c ∈ cs, isLowerChar c = true) →
      Word .classSelector ('.' :: cs)

  | quantity {digits : List Char} (dimension : Dimension) : digits ≠ [] →
      (∀ c ∈ digits, c.isDigit = true) → Word dimension.kind (digits ++ dimension.suffix)

  | reserved {kind : TokenKind} {text : List Char} : (kind, text) ∈ reservedWords → Word kind text

  | lowerName {c : Char} {cs : List Char} : c.isLower = true →
      (∀ d ∈ cs, isLowerChar d = true) → (∀ kind, (kind, c :: cs) ∉ reservedWords) →
      Word .lowerName (c :: cs)

  | capitalName {c : Char} {cs : List Char} : c.isUpper = true →
      (∀ d ∈ cs, isCapitalChar d = true) → (∀ kind, (kind, c :: cs) ∉ reservedWords) →
      Word .capitalName (c :: cs)

  | sign {kind : TokenKind} {text : List Char} : (kind, text) ∈ signs → Word kind text

structure Longest (cs : List Char) (kind : TokenKind) (text rest : List Char) : Prop where
  word : Word kind text
  append_eq : text ++ rest = cs
  length_le {kind' : TokenKind} {other : List Char} : Word kind' other → other <+: cs →
    other.length ≤ text.length

/-- Reading by the longest word: layout is skipped, and a place at which neither
layout nor a word stands ends the reading with a fault. -/
inductive ReadsLongest : Cursor → List Char → Except Fault (List Token) → Prop where

  | ending {cursor : Cursor} : ReadsLongest cursor [] (.ok [.ending (cursor.span 0)])

  | layout {cursor : Cursor} {text rest : List Char} {result : Except Fault (List Token)} :
      Skips text rest → ReadsLongest (cursor.advance (byteLength text)) rest result →
      ReadsLongest cursor (text ++ rest) result

  | word {cursor : Cursor} {cs text rest : List Char} {kind : TokenKind}
      {result : Except Fault (List Token)} : Longest cs kind text rest →
      ReadsLongest (cursor.advance (byteLength text)) rest result →
      ReadsLongest cursor cs (result.map
        (⟨kind, String.ofList text, cursor.span (byteLength text)⟩ :: ·))

  | unrecognised {cursor : Cursor} {c : Char} {cs : List Char} :
      (∀ {text rest}, Skips text rest → text ++ rest ≠ c :: cs) →
      (∀ {kind text}, Word kind text → ¬ text <+: c :: cs) →
      ReadsLongest cursor (c :: cs) (.error ⟨.unrecognised (String.singleton c), cursor.position⟩)

/-! ## How words are read -/

namespace Pattern

variable {p : Char → Bool} {mark cs text rest : List Char}

theorem of_split?_word_runOf (h : (seq (word mark) (runOf p)).split? cs = some (text, rest)) :
    ∃ body, text = mark ++ body ∧ body ≠ [] ∧ ∀ c ∈ body, p c = true := by
  obtain ⟨first, body, between, hw, hr, rfl⟩ := of_split?_seq h
  obtain rfl := of_split?_word hw
  exact ⟨body, rfl, of_split?_runOf hr⟩

theorem of_split?_runOf_word (h : (seq (runOf p) (word mark)).split? cs = some (text, rest)) :
    ∃ body, text = body ++ mark ∧ body ≠ [] ∧ ∀ c ∈ body, p c = true := by
  obtain ⟨body, second, between, hr, hw, rfl⟩ := of_split?_seq h
  obtain rfl := of_split?_word hw
  exact ⟨body, rfl, of_split?_runOf hr⟩

theorem of_split?_among_run {q : Char → Bool}
    (h : (seq (among p) (run q)).split? cs = some (text, rest)) :
    ∃ c body, text = c :: body ∧ p c = true ∧ ∀ d ∈ body, q d = true := by
  obtain ⟨first, body, between, ha, hr, rfl⟩ := of_split?_seq h
  obtain ⟨c, rfl, hc⟩ := of_split?_among ha
  exact ⟨c, body, rfl, hc, of_split?_run hr⟩

end Pattern

section Words

variable {cs text rest : List Char} {kind : TokenKind}

theorem reserved?_eq_some_iff :
    TokenKind.reserved? (String.ofList text) = some kind ↔ (kind, text) ∈ reservedWords := by
  constructor
  · intro h
    unfold TokenKind.reserved? at h
    split at h <;> cases h
    all_goals
      next hw =>
        rw [← String.toList_inj, String.toList_ofList] at hw
        subst hw
        decide
  · intro h
    simp only [reservedWords, List.mem_cons, Prod.mk.injEq, List.not_mem_nil, or_false] at h
    rcases h with ⟨rfl, rfl⟩ | ⟨rfl, rfl⟩ | ⟨rfl, rfl⟩ | ⟨rfl, rfl⟩ <;> rfl

theorem nameOr_of_not_reserved (h : ∀ kind, (kind, text) ∉ reservedWords) (kind : TokenKind) :
    nameOr kind text = some kind := by
  have hr : TokenKind.reserved? (String.ofList text) = none := by
    rw [Option.eq_none_iff_forall_ne_some]
    intro kind hk
    exact h kind (reserved?_eq_some_iff.mp hk)
  rw [nameOr, hr]
  rfl

theorem hashWord_cons (cs : List Char) :
    hashWord ('#' :: cs) = some (if SixHexDigits cs then .color else .idSelector) := by
  have hc : (decide (cs.length = 6) && cs.all isHexDigit) = true ↔ SixHexDigits cs := by
    rw [Bool.and_eq_true, decide_eq_true_eq, List.all_eq_true]
    rfl
  exact congrArg some (if_congr hc rfl rfl)

theorem next?_capitalName {c : Char} (hc : c.isUpper = true)
    (h : ∀ d ∈ cs, isCapitalChar d = true) (hr : ∀ d ∈ rest.head?, isCapitalChar d = false) :
    Lexeme.next? (c :: cs ++ rest) = some ⟨nameOr .capitalName (c :: cs), c :: cs, rest⟩ := by
  have hs := split?_seq (split?_among hc _) (split?_run_append h hr)
  have hu := isUpper_iff.mp hc
  have hb : isBlank c = false := isBlank_eq_false (by omega)
  have hd : c.isDigit = false := by
    rw [Bool.eq_false_iff, Ne, isDigit_iff]
    omega
  have hl : c.isLower = false := by
    rw [Bool.eq_false_iff, Ne, isLower_iff]
    omega
  have hm : c ≠ '/' ∧ c ≠ '#' ∧ c ≠ '.' := by
    refine ⟨?_, ?_, ?_⟩ <;> rintro rfl <;> exact absurd hc (by decide)
  have hn (b : Pattern) (cs : List Char) :
      (seq (among Char.isLower) b).split? (c :: cs) = none := by
    simp [split?, hl]
  simp [Lexeme.next?, rules, split?_runOf_of_not, split?_seq_runOf_of_not, split?_seq_word_of_ne,
    hb, hd, hm, hn, hs]

theorem Word.next? (h : Word kind text) : Lexeme.next? text = some ⟨some kind, text, []⟩ := by
  have hs : Stops [] := by simp [Stops]
  have hspelled (h : Spelled kind text) : Lexeme.next? text = some ⟨some kind, text, []⟩ := by
    have hn := next?_of_spelled h hs
    rwa [List.append_nil] at hn
  cases h with
  | @color cs h =>
    have hn : cs ≠ [] := List.ne_nil_of_length_eq_add_one h.1
    refine hspelled (.hash hn (fun c hc => isHashChar_of_isHexDigit (h.2 c hc)) ?_)
    rw [hashWord_cons, if_pos h]
  | id hn hc h => exact hspelled (.hash hn hc (by rw [hashWord_cons, if_neg h]))
  | className hn hc => exact hspelled (.className hn hc)
  | quantity dimension hn hd => exact hspelled (.quantity dimension hn hd)
  | reserved h =>
    simp only [reservedWords, List.mem_cons, Prod.mk.injEq, List.not_mem_nil, or_false] at h
    rcases h with ⟨rfl, rfl⟩ | ⟨rfl, rfl⟩ | ⟨rfl, rfl⟩ | ⟨rfl, rfl⟩ <;> rfl
  | lowerName hc hd hr => exact hspelled (.name hc hd (nameOr_of_not_reserved hr _))
  | @capitalName c cs hc hd hr =>
    have hn : Lexeme.next? (c :: cs ++ []) = _ := next?_capitalName hc hd (by simp)
    rwa [List.append_nil, nameOr_of_not_reserved hr] at hn
  | sign h =>
    simp only [signs, List.mem_cons, Prod.mk.injEq, List.not_mem_nil, or_false] at h
    rcases h with ⟨rfl, rfl⟩ | ⟨rfl, rfl⟩ | ⟨rfl, rfl⟩ | ⟨rfl, rfl⟩ | ⟨rfl, rfl⟩ | ⟨rfl, rfl⟩ |
      ⟨rfl, rfl⟩ | ⟨rfl, rfl⟩ | ⟨rfl, rfl⟩ | ⟨rfl, rfl⟩ | ⟨rfl, rfl⟩ <;> rfl

theorem Word.kind_ne (h : Word kind text) : kind ≠ .endOfInput := by
  cases h with
  | quantity dimension => cases dimension <;> exact TokenKind.noConfusion
  | reserved h =>
    rintro rfl
    exact absurd h (by simp [reservedWords])
  | sign h =>
    rintro rfl
    exact absurd h (by simp [signs])
  | _ => exact TokenKind.noConfusion

theorem word_of_name {c : Char} {kind' : TokenKind}
    (hw : (∀ kind, (kind, c :: cs) ∉ reservedWords) → Word kind' (c :: cs))
    (h : nameOr kind' (c :: cs) = some kind) : Word kind (c :: cs) := by
  cases hr : TokenKind.reserved? (String.ofList (c :: cs)) with
  | some word =>
    rw [nameOr, hr] at h
    cases h
    exact .reserved (reserved?_eq_some_iff.mp hr)
  | none =>
    rw [nameOr, hr] at h
    cases h
    refine hw fun kind hk => ?_
    cases hr.symm.trans (reserved?_eq_some_iff.mpr hk)

theorem word_of_mark {sign : String} {kind' : TokenKind} (hs : (kind', sign.toList) ∈ signs)
    (h : (mark sign kind').pattern.split? cs = some (text, rest))
    (hk : (mark sign kind').kind? text = some kind) : Word kind text := by
  cases hk
  rw [of_split?_word h]
  exact .sign hs

theorem word_of_rule {rule : LexicalRule} (hm : rule ∈ rules)
    (hs : rule.pattern.split? cs = some (text, rest)) (hk : rule.kind? text = some kind) :
    Word kind text := by
  simp only [rules, List.mem_cons, List.not_mem_nil, or_false] at hm
  rcases hm with rfl | rfl | rfl | rfl | rfl | rfl | rfl | rfl | rfl | rfl | hm
  -- The first three rules are for layout.
  · cases hk
  · cases hk
  · cases hk
  · obtain ⟨digits, rfl, hn, hc⟩ := of_split?_word_runOf hs
    obtain rfl := Option.some.inj ((hashWord_cons digits).symm.trans hk)
    split
    · next hd => exact .color hd
    · next hd => exact .id hn hc hd
  · obtain ⟨name, rfl, hn, hc⟩ := of_split?_word_runOf hs
    cases hk
    exact .className hn hc
  · obtain ⟨digits, rfl, hn, hd⟩ := of_split?_runOf_word hs
    cases hk
    exact .quantity .pixel hn hd
  · obtain ⟨digits, rfl, hn, hd⟩ := of_split?_runOf_word hs
    cases hk
    exact .quantity .percentage hn hd
  · obtain ⟨hn, hd⟩ := of_split?_runOf hs
    cases hk
    have hw := Word.quantity .scalar hn hd
    rwa [Dimension.suffix, List.append_nil] at hw
  · obtain ⟨c, name, rfl, hc, hd⟩ := of_split?_among_run hs
    exact word_of_name (.lowerName hc hd) hk
  · obtain ⟨c, name, rfl, hc, hd⟩ := of_split?_among_run hs
    exact word_of_name (.capitalName hc hd) hk
  · rcases hm with rfl | rfl | rfl | rfl | rfl | rfl | rfl | rfl | rfl | rfl | rfl
    all_goals exact word_of_mark (by decide) hs hk

theorem word_of_next? (h : Lexeme.next? cs = some ⟨some kind, text, rest⟩) : Word kind text := by
  obtain ⟨rule, hm, hs, hk⟩ := Lexeme.exists_rule_of_next? h
  exact word_of_rule hm hs hk

theorem word_iff_exists_rule :
    Word kind text ↔ ∃ rule ∈ rules, rule.pattern.split? text = some (text, []) ∧
      rule.kind? text = some kind := by
  constructor
  · intro h
    exact Lexeme.exists_rule_of_next? h.next?
  · rintro ⟨rule, hm, hs, hk⟩
    exact word_of_rule hm hs hk

end Words

/-! ## Reading by the longest word -/

section Reading

variable {cursor : Cursor} {cs cs' text rest : List Char} {kind : TokenKind}

namespace Lexeme

theorem next?_eq_none_iff :
    next? cs = none ↔ ∀ rule ∈ rules, rule.pattern.split? cs = none := by
  simp [next?, List.findSome?_eq_none_iff]

theorem next?_eq_none_of_cut (h : next? cs = none) (hp : cs' <+: cs) : next? cs' = none := by
  rw [next?_eq_none_iff] at h ⊢
  intro rule hm
  exact split?_eq_none_of_cut (h rule hm) hp

end Lexeme

theorem Word.exists_cons (h : Word kind text) :
    ∃ c cs, text = c :: cs ∧ opensLayout c = false := by
  obtain ⟨c, cs, rfl⟩ := List.exists_cons_of_ne_nil (Lexeme.ne_nil_of_next? h.next?)
  exact ⟨c, cs, rfl, Lexeme.not_opensLayout_of_next? h.next? c (by simp)⟩

theorem longest_of_next? (h : Lexeme.next? cs = some ⟨some kind, text, rest⟩) :
    Longest cs kind text rest where
  word := word_of_next? h
  append_eq := Lexeme.append_of_next? h
  length_le {kind' other} hw hp := by
    obtain rfl : text ++ rest = cs := Lexeme.append_of_next? h
    apply Nat.le_of_not_lt
    intro hlt
    obtain ⟨more, rfl⟩ :=
      List.prefix_of_prefix_length_le (List.prefix_append text rest) hp (Nat.le_of_lt hlt)
    -- The longer word is read whole, and the shorter one is read from the same text.
    have hn := Lexeme.next?_of_cut h ((List.prefix_append_right_inj text).mp hp)
    obtain rfl : [] = more :=
      congrArg Lexeme.rest (Option.some.inj (hw.next?.symm.trans hn))
    simp at hlt

theorem Longest.next? (h : Longest cs kind text rest) :
    Lexeme.next? cs = some ⟨some kind, text, rest⟩ := by
  have hp : text <+: cs := ⟨rest, h.append_eq⟩
  cases hn : Lexeme.next? cs with
  | none => cases (Lexeme.next?_eq_none_of_cut hn hp).symm.trans h.word.next?
  | some lexeme =>
    obtain ⟨kind?, text', rest'⟩ := lexeme
    have he : text ++ rest = text' ++ rest' := h.append_eq.trans (Lexeme.append_of_next? hn).symm
    cases kind? with
    | none =>
      obtain ⟨c, _, rfl, hc⟩ := h.word.exists_cons
      obtain ⟨d, _, rfl, hd⟩ := (skips_of_next? hn).exists_cons
      obtain rfl : c = d := (List.cons_eq_cons.mp he).1
      cases hc.symm.trans hd
    | some kind' =>
      have hl := longest_of_next? hn
      have hlen := Nat.le_antisymm (hl.length_le h.word hp)
        (h.length_le hl.word ⟨rest', hl.append_eq⟩)
      obtain ⟨rfl, rfl⟩ := List.append_inj he hlen
      cases h.word.next?.symm.trans hl.word.next?
      rfl

theorem next?_eq_none_iff_unrecognised :
    Lexeme.next? cs = none ↔ (∀ {text rest}, Skips text rest → text ++ rest ≠ cs) ∧
      ∀ {kind text}, Word kind text → ¬ text <+: cs := by
  constructor
  · intro hn
    constructor
    · rintro text rest hs rfl
      cases hn.symm.trans hs.next?
    · intro kind text hw hp
      cases (Lexeme.next?_eq_none_of_cut hn hp).symm.trans hw.next?
  · rintro ⟨hs, hw⟩
    cases hn : Lexeme.next? cs with
    | none => rfl
    | some lexeme =>
      obtain ⟨kind?, text, rest⟩ := lexeme
      have he : text ++ rest = cs := Lexeme.append_of_next? hn
      cases kind? with
      | none => exact absurd he (hs (skips_of_next? hn))
      | some kind => exact absurd ⟨rest, he⟩ (hw (word_of_next? hn))

/-- What a source gives when it is read as far as it can be. -/
def Scan.outcome (read : Scan) : Except Fault (List Token) :=
  match read.rest with
  | [] => .ok (read.tokens ++ [.ending (read.stop.span 0)])
  | c :: _ => .error ⟨.unrecognised (String.singleton c), read.stop.position⟩

theorem tokenize_eq_outcome (file source : String) :
    tokenize file source = (scan (.start file) source.toList).outcome := rfl

theorem Scan.outcome_cons (read : Scan) (token : Token) :
    outcome { read with tokens := token :: read.tokens } = read.outcome.map (token :: ·) := by
  obtain ⟨tokens, stop, rest⟩ := read
  cases rest <;> rfl

theorem ReadsLongest.outcome_eq {result : Except Fault (List Token)}
    (h : ReadsLongest cursor cs result) : (scan cursor cs).outcome = result := by
  induction h with
  | ending =>
    rw [scan_nil]
    rfl
  | layout hs _ ih =>
    rw [scan_of_next? hs.next?]
    exact ih
  | word hl _ ih =>
    rw [scan_of_next? hl.next?, ← ih]
    exact Scan.outcome_cons _ _
  | unrecognised hs hw =>
    rw [scan_of_next?_none (next?_eq_none_iff_unrecognised.mpr ⟨hs, hw⟩)]
    rfl

theorem readsLongest_outcome (cursor : Cursor) (cs : List Char) :
    ReadsLongest cursor cs (scan cursor cs).outcome := by
  induction cursor, cs using scan.induct with
  | case1 cursor cs hn =>
    rw [scan_of_next?_none hn]
    cases cs with
    | nil => exact .ending
    | cons c cs =>
      obtain ⟨hs, hw⟩ := next?_eq_none_iff_unrecognised.mp hn
      exact .unrecognised hs hw
  | case2 cursor cs lexeme hn hlt ih =>
    rw [scan_of_next? hn]
    obtain ⟨kind?, text, rest⟩ := lexeme
    cases kind? with
    | none =>
      obtain rfl := Lexeme.append_of_next? hn
      exact .layout (skips_of_next? hn) ih
    | some kind =>
      have hr := ReadsLongest.word (longest_of_next? hn) ih
      rwa [← Scan.outcome_cons] at hr

/-- A source is read by the first rule that applies as it is read by the longest
word: the same tokens with the same spans, or the same fault. The words are those
of all the rules for tokens. -/
theorem tokenize_iff_readsLongest :
    (∀ {kind : TokenKind} {text : List Char}, Word kind text ↔
      ∃ rule ∈ rules, rule.pattern.split? text = some (text, []) ∧ rule.kind? text = some kind) ∧
    ∀ {file source : String} {result : Except Fault (List Token)},
      tokenize file source = result ↔ ReadsLongest (.start file) source.toList result := by
  refine ⟨word_iff_exists_rule, ?_⟩
  intro file source result
  constructor
  · rintro rfl
    exact readsLongest_outcome (.start file) source.toList
  · intro h
    exact h.outcome_eq

end Reading

end Stylesheet
