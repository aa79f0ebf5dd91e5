import Stylesheet.Proofs.Derivation

/-! # Lexemes in a text

How lexemes are spelled. A spelled lexeme is read whole wherever what follows it
does not continue it, so a text that is put together from spelled lexemes is
read as these.
-/

namespace Stylesheet

open Text

namespace Pattern

variable {p : Char → Bool} {cs rest text : List Char} {c : Char}

theorem split?_run_append (h : ∀ c ∈ cs, p c = true) (hr : ∀ c ∈ rest.head?, p c = false) :
    (run p).split? (cs ++ rest) = some (cs, rest) := by
  have ht : rest.takeWhile p = [] ∧ rest.dropWhile p = rest := by
    cases rest with
    | nil => exact ⟨rfl, rfl⟩
    | cons c rest =>
      have hc : p c = false := hr c rfl
      simp [hc]
  rw [split?, List.takeWhile_append_of_pos h, List.dropWhile_append_of_pos h, ht.1, ht.2,
    List.append_nil]

theorem split?_seq {a b : Pattern} {first second between : List Char}
    (ha : a.split? cs = some (first, between)) (hb : b.split? between = some (second, rest)) :
    (seq a b).split? cs = some (first ++ second, rest) := by
  simp [split?, ha, hb]

theorem split?_among (h : p c = true) (cs : List Char) :
    (among p).split? (c :: cs) = some ([c], cs) := by
  simp [split?, h]

theorem split?_runOf_append (hn : cs ≠ []) (h : ∀ c ∈ cs, p c = true)
    (hr : ∀ c ∈ rest.head?, p c = false) :
    (runOf p).split? (cs ++ rest) = some (cs, rest) := by
  obtain ⟨c, cs, rfl⟩ := List.exists_cons_of_ne_nil hn
  obtain ⟨hc, hcs⟩ := List.forall_mem_cons.mp h
  exact split?_seq (split?_among hc _) (split?_run_append hcs hr)

theorem split?_runOf_of_not (h : p c = false) (cs : List Char) :
    (runOf p).split? (c :: cs) = none := by
  simp [runOf, split?, h]

theorem split?_seq_runOf_of_not (h : p c = false) (b : Pattern) (cs : List Char) :
    (seq (runOf p) b).split? (c :: cs) = none := by
  rw [split?, split?_runOf_of_not h]
  rfl

theorem split?_seq_word_of_ne {d : Char} (h : c ≠ d) (ds cs : List Char) (b : Pattern) :
    (seq (word (d :: ds)) b).split? (c :: cs) = none := by
  simp [split?, List.isPrefixOf, h.symm]

theorem split?_word_append (mark cs : List Char) :
    (word mark).split? (mark ++ cs) = some (mark, cs) := by
  simp [split?]

theorem split?_seq_word_of_not {a : Pattern} {first between : List Char} (mark : List Char)
    (ha : a.split? cs = some (first, between)) (h : mark.isPrefixOf between = false) :
    (seq a (word mark)).split? cs = none := by
  have hp : ¬ mark <+: between := by
    rw [← List.isPrefixOf_iff_prefix, h]
    decide
  simp [split?, ha, hp]

theorem of_split?_run (h : (run p).split? cs = some (text, rest)) : ∀ c ∈ text, p c = true := by
  obtain ⟨rfl, -⟩ := by simpa [split?] using h
  exact List.all_eq_true.mp List.all_takeWhile

theorem of_split?_among (h : (among p).split? cs = some (text, rest)) :
    ∃ c, text = [c] ∧ p c = true := by
  cases cs with
  | nil => cases h
  | cons c cs =>
    by_cases hc : p c = true
    · rw [split?, if_pos hc] at h
      cases h
      exact ⟨c, rfl, hc⟩
    · rw [split?, if_neg hc] at h
      cases h

theorem of_split?_seq {a b : Pattern} (h : (seq a b).split? cs = some (text, rest)) :
    ∃ first second between, a.split? cs = some (first, between) ∧
      b.split? between = some (second, rest) ∧ text = first ++ second := by
  obtain ⟨⟨first, between⟩, ha, h⟩ := Option.bind_eq_some_iff.mp h
  obtain ⟨⟨second, rest'⟩, hb, h⟩ := Option.map_eq_some_iff.mp h
  cases h
  exact ⟨first, second, between, ha, hb, rfl⟩

theorem of_split?_word {mark : List Char} (h : (word mark).split? cs = some (text, rest)) :
    text = mark := by
  rw [split?] at h
  split at h <;> cases h
  rfl

theorem of_split?_runOf (h : (runOf p).split? cs = some (text, rest)) :
    text ≠ [] ∧ ∀ c ∈ text, p c = true := by
  obtain ⟨first, second, between, ha, hb, rfl⟩ := of_split?_seq h
  obtain ⟨c, rfl, hc⟩ := of_split?_among ha
  exact ⟨by simp, List.forall_mem_cons.mpr ⟨hc, of_split?_run hb⟩⟩

end Pattern

namespace Lexicon

open Pattern

def separators : List (TokenKind × Char) :=
  [(.colon, ':'), (.semicolon, ';'), (.comma, ','), (.openBrace, '\x7b'), (.closeBrace, '\x7d')]

/-- How the lexemes of selectors, properties and values and the signs between them
are spelled. -/
inductive Spelled : TokenKind → List Char → Prop where

  | hash {kind : TokenKind} {cs : List Char} : cs ≠ [] → (∀ c ∈ cs, isHashChar c = true) →
      hashWord ('#' :: cs) = some kind → Spelled kind ('#' :: cs)

  | className {cs : List Char} : cs ≠ [] → (∀ c ∈ cs, isLowerChar c = true) →
      Spelled .classSelector ('.' :: cs)

  | name {kind : TokenKind} {c : Char} {cs : List Char} : c.isLower = true →
      (∀ d ∈ cs, isLowerChar d = true) → nameOr .lowerName (c :: cs) = some kind →
      Spelled kind (c :: cs)

  | quantity {digits : List Char} (dimension : Dimension) : digits ≠ [] →
      (∀ c ∈ digits, c.isDigit = true) → Spelled dimension.kind (digits ++ dimension.suffix)

  | separator {kind : TokenKind} {c : Char} : (kind, c) ∈ separators → Spelled kind [c]

/-- What continues none of these lexemes. -/
def Stops (rest : List Char) : Prop :=
  ∀ c ∈ rest.head?, isHashChar c = false ∧ c ≠ '%' ∧ c ≠ '='

theorem isBlank_eq_false {c : Char} (h : 33 ≤ c.toNat ∧ c.toNat ≤ 126) : isBlank c = false := by
  simp only [isBlank, Bool.or_eq_false_iff, Bool.and_eq_false_iff, decide_eq_false_iff_not,
    beq_eq_false_iff_ne]
  omega

theorem isLower_iff {c : Char} : c.isLower = true ↔ 97 ≤ c.toNat ∧ c.toNat ≤ 122 := by
  change (decide (c.val ≥ 97) && decide (c.val ≤ 122)) = true ↔ _
  rw [Bool.and_eq_true, decide_eq_true_eq, decide_eq_true_eq, ge_iff_le,
    UInt32.le_iff_toNat_le, UInt32.le_iff_toNat_le]
  rfl

theorem isUpper_iff {c : Char} : c.isUpper = true ↔ 65 ≤ c.toNat ∧ c.toNat ≤ 90 := by
  change decide (c.val ≥ 65 ∧ c.val ≤ 90) = true ↔ _
  rw [decide_eq_true_eq, ge_iff_le, UInt32.le_iff_toNat_le, UInt32.le_iff_toNat_le]
  rfl

theorem isDigit_iff {c : Char} : c.isDigit = true ↔ 48 ≤ c.toNat ∧ c.toNat ≤ 57 := by
  simp [Char.isDigit, UInt32.le_iff_toNat_le]

theorem isHashChar_iff {c : Char} :
    isHashChar c = true ↔ c.isUpper = true ∨ c.isLower = true ∨ c.isDigit = true ∨ c = '-' := by
  change (((c.isUpper || c.isLower) || c.isDigit) || decide (c = '-')) = true ↔ _
  simp only [Bool.or_eq_true, decide_eq_true_eq, or_assoc]

theorem isHexDigit_iff {c : Char} :
    isHexDigit c = true ↔ c.isDigit = true ∨ (97 ≤ c.toNat ∧ c.toNat ≤ 102) ∨
      65 ≤ c.toNat ∧ c.toNat ≤ 70 := by
  simp only [isHexDigit, Bool.or_eq_true, Bool.and_eq_true, decide_eq_true_eq, Char.le_def,
    UInt32.le_iff_toNat_le, or_assoc]
  rfl

theorem isBlank_of_isLower {c : Char} (h : c.isLower = true) : isBlank c = false :=
  isBlank_eq_false (by have := isLower_iff.mp h; omega)

theorem isBlank_of_isDigit {c : Char} (h : c.isDigit = true) : isBlank c = false :=
  isBlank_eq_false (by have := isDigit_iff.mp h; omega)

theorem isDigit_of_isLower {c : Char} (h : c.isLower = true) : c.isDigit = false := by
  rw [Bool.eq_false_iff, Ne, isDigit_iff]
  have := isLower_iff.mp h
  omega

theorem isHashChar_of_isDigit {c : Char} (h : c.isDigit = true) : isHashChar c = true :=
  isHashChar_iff.mpr (.inr (.inr (.inl h)))

theorem isHashChar_of_isLowerChar {c : Char} (h : isLowerChar c = true) : isHashChar c = true := by
  simp only [isLowerChar, Bool.or_eq_true, decide_eq_true_eq, or_assoc] at h
  exact isHashChar_iff.mpr (.inr h)

theorem isHashChar_of_isHexDigit {c : Char} (h : isHexDigit c = true) : isHashChar c = true := by
  rcases isHexDigit_iff.mp h with h | h | h
  · exact isHashChar_of_isDigit h
  · exact isHashChar_iff.mpr (.inr (.inl (isLower_iff.mpr (by omega))))
  · exact isHashChar_iff.mpr (.inl (isUpper_iff.mpr (by omega)))

variable {cs rest : List Char}

theorem Stops.not {p : Char → Bool} (h : Stops rest) (hp : ∀ c, p c = true → isHashChar c = true) :
    ∀ c ∈ rest.head?, p c = false := by
  intro c hc
  rw [Bool.eq_false_iff]
  intro hpc
  exact absurd (hp c hpc) (by simp [(h c hc).1])

theorem next?_hash (hn : cs ≠ []) (h : ∀ c ∈ cs, isHashChar c = true) (hr : Stops rest) :
    Lexeme.next? ('#' :: cs ++ rest) = some ⟨hashWord ('#' :: cs), '#' :: cs, rest⟩ := by
  have hs := split?_runOf_append hn h (hr.not fun _ => id)
  simp [Lexeme.next?, rules, split?, split?_runOf_of_not, hs, isBlank, List.isPrefixOf]

theorem next?_class (hn : cs ≠ []) (h : ∀ c ∈ cs, isLowerChar c = true) (hr : Stops rest) :
    Lexeme.next? ('.' :: cs ++ rest) = some ⟨some .classSelector, '.' :: cs, rest⟩ := by
  have hs := split?_runOf_append hn h (hr.not fun _ => isHashChar_of_isLowerChar)
  simp [Lexeme.next?, rules, split?, split?_runOf_of_not, hs, isBlank, List.isPrefixOf, always]

theorem next?_name {c : Char} (hc : c.isLower = true) (h : ∀ d ∈ cs, isLowerChar d = true)
    (hr : Stops rest) :
    Lexeme.next? (c :: cs ++ rest) = some ⟨nameOr .lowerName (c :: cs), c :: cs, rest⟩ := by
  have hs := split?_seq (split?_among hc _)
    (split?_run_append h (hr.not fun _ => isHashChar_of_isLowerChar))
  have hm : c ≠ '/' ∧ c ≠ '#' ∧ c ≠ '.' := by
    refine ⟨?_, ?_, ?_⟩ <;> rintro rfl <;> exact absurd hc (by decide)
  simp [Lexeme.next?, rules, split?_runOf_of_not, split?_seq_runOf_of_not, split?_seq_word_of_ne,
    isBlank_of_isLower hc, isDigit_of_isLower hc, hm, hs]

theorem Stops.isPrefixOf {c : Char} (h : Stops rest) (hc : isHashChar c = true ∨ c = '%')
    (cs : List Char) : (c :: cs).isPrefixOf rest = false := by
  cases rest with
  | nil => rfl
  | cons d rest =>
    obtain ⟨hh, hp, -⟩ := h d rfl
    have hne : c ≠ d := by
      rintro rfl
      rcases hc with hc | hc
      · exact absurd hc (by simp [hh])
      · exact hp hc
    simp [List.isPrefixOf, hne]

theorem next?_quantity {digits : List Char} (dimension : Dimension) (hn : digits ≠ [])
    (h : ∀ c ∈ digits, c.isDigit = true) (hr : Stops rest) :
    Lexeme.next? (digits ++ dimension.suffix ++ rest) =
      some ⟨some dimension.kind, digits ++ dimension.suffix, rest⟩ := by
  have hsuffix : ∀ c ∈ (dimension.suffix ++ rest).head?, c.isDigit = false := by
    cases dimension with
    | scalar => exact hr.not fun _ => isHashChar_of_isDigit
    | _ => simp [Dimension.suffix]
  have hs := split?_runOf_append hn h hsuffix
  rw [← List.append_assoc] at hs
  obtain ⟨c, cs, hc, hcs⟩ :
      ∃ c cs, c.isDigit = true ∧ digits ++ dimension.suffix ++ rest = c :: cs := by
    obtain ⟨c, cs, rfl⟩ := List.exists_cons_of_ne_nil hn
    exact ⟨c, _, h c (by simp), rfl⟩
  have hm : c ≠ '/' ∧ c ≠ '#' ∧ c ≠ '.' := by
    refine ⟨?_, ?_, ?_⟩ <;> rintro rfl <;> exact absurd hc (by decide)
  rw [hcs] at hs ⊢
  cases dimension with
  | pixel =>
    have hp := split?_seq hs (split?_word_append ['p', 'x'] rest)
    simp [Lexeme.next?, rules, split?_runOf_of_not, split?_seq_word_of_ne, isBlank_of_isDigit hc,
      hm, hp, always, Dimension.kind, Dimension.suffix]
  | percentage =>
    have hp := split?_seq_word_of_not ['p', 'x'] hs rfl
    have hq := split?_seq hs (split?_word_append ['%'] rest)
    simp [Lexeme.next?, rules, split?_runOf_of_not, split?_seq_word_of_ne, isBlank_of_isDigit hc,
      hm, hp, hq, always, Dimension.kind, Dimension.suffix]
  | scalar =>
    have hp := split?_seq_word_of_not ['p', 'x'] hs (hr.isPrefixOf (.inl (by decide)) ['x'])
    have hq := split?_seq_word_of_not ['%'] hs (hr.isPrefixOf (.inr rfl) [])
    simp [Lexeme.next?, rules, split?_runOf_of_not, split?_seq_word_of_ne, isBlank_of_isDigit hc,
      hm, hp, hq, hs, always, Dimension.kind, Dimension.suffix]

/-- A spelled lexeme is read whole where nothing continues it. -/
theorem next?_of_spelled {kind : TokenKind} {text : List Char} (h : Spelled kind text)
    (hr : Stops rest) : Lexeme.next? (text ++ rest) = some ⟨some kind, text, rest⟩ := by
  cases h with
  | hash hn hc hk => rw [next?_hash hn hc hr, hk]
  | className hn hc => exact next?_class hn hc hr
  | name hc hd hk => rw [next?_name hc hd hr, hk]
  | quantity dimension hn hd => exact next?_quantity dimension hn hd hr
  | @separator _ c hs =>
    have hne : ∀ d ∈ rest.head?, '=' ≠ d := fun d hd => (hr d hd).2.2.symm
    simp only [separators, List.mem_cons, Prod.mk.injEq, List.not_mem_nil, or_false] at hs
    rcases hs with ⟨rfl, rfl⟩ | ⟨rfl, rfl⟩ | ⟨rfl, rfl⟩ | ⟨rfl, rfl⟩ | ⟨rfl, rfl⟩
    · cases rest with
      | nil => rfl
      | cons d rest =>
        have hd := hne d rfl
        simp [Lexeme.next?, rules, split?, runOf, mark, isBlank, List.isPrefixOf, hd, always]
    all_goals rfl

theorem reserved?_not_selector {text : String} {kind : TokenKind}
    (h : TokenKind.reserved? text = some kind) : kind ∉ selectorKinds := by
  unfold TokenKind.reserved? at h
  split at h <;> cases h <;> decide

theorem nameOr_eq_some {text : List Char} {kind kind' : TokenKind}
    (h : nameOr kind text = some kind') : kind' = kind ∨ kind' ∉ selectorKinds := by
  cases hr : TokenKind.reserved? (String.ofList text) with
  | some word =>
    rw [nameOr, hr] at h
    cases h
    exact .inr (reserved?_not_selector hr)
  | none =>
    rw [nameOr, hr] at h
    cases h
    exact .inl rfl

theorem always_not_selector {kind kind' : TokenKind} (hk : kind ∉ selectorKinds)
    (h : some kind = some kind') : kind' ∉ selectorKinds := by
  cases h
  exact hk

theorem rule_of_selector {rule : LexicalRule} (hm : rule ∈ rules) {text : List Char}
    {kind : TokenKind} (ht : rule.kind? text = some kind) (hs : kind ∈ selectorKinds) :
    rule = ⟨seq (word ['#']) (runOf isHashChar), hashWord⟩ ∨
      rule = ⟨seq (word ['.']) (runOf isLowerChar), always .classSelector⟩ ∨
      rule = ⟨seq (among Char.isLower) (run isLowerChar), nameOr .lowerName⟩ := by
  simp only [rules, List.mem_cons, List.not_mem_nil, or_false] at hm
  rcases hm with rfl | rfl | rfl | h | h | rfl | rfl | rfl | h | rfl | hm
  · cases ht
  · cases ht
  · cases ht
  · exact .inl h
  · exact .inr (.inl h)
  · exact absurd hs (always_not_selector (by decide) ht)
  · exact absurd hs (always_not_selector (by decide) ht)
  · exact absurd hs (always_not_selector (by decide) ht)
  · exact .inr (.inr h)
  · rcases nameOr_eq_some ht with rfl | hn
    · exact absurd hs (by decide)
    · exact absurd hs hn
  · rcases hm with rfl | rfl | rfl | rfl | rfl | rfl | rfl | rfl | rfl | rfl | rfl
    all_goals exact absurd hs (always_not_selector (by decide) ht)

theorem spelled_of_next? {lexeme : Lexeme} {kind : TokenKind} (h : Lexeme.next? cs = some lexeme)
    (hk : lexeme.kind? = some kind) (hs : kind ∈ selectorKinds) : Spelled kind lexeme.text := by
  obtain ⟨rule, hm, hp, ht⟩ := Lexeme.exists_rule_of_next? h
  rw [hk] at ht
  rcases rule_of_selector hm ht hs with rfl | rfl | rfl
  · obtain ⟨first, second, _, hw, hr, he⟩ := of_split?_seq hp
    obtain rfl := of_split?_word hw
    obtain ⟨hn, hc⟩ := of_split?_runOf hr
    rw [he] at ht ⊢
    exact .hash hn hc ht
  · obtain ⟨first, second, _, hw, hr, he⟩ := of_split?_seq hp
    obtain rfl := of_split?_word hw
    obtain ⟨hn, hc⟩ := of_split?_runOf hr
    cases ht
    rw [he]
    exact .className hn hc
  · obtain ⟨first, second, _, hw, hr, he⟩ := of_split?_seq hp
    obtain ⟨c, rfl, hc⟩ := of_split?_among hw
    rw [he] at ht ⊢
    exact .name hc (of_split?_run hr) ht

end Lexicon

open Lexicon

def Token.word (token : Token) : TokenKind × String := (token.kind, token.text)

/-- The words that a text is read as. -/
inductive Reads : List Char → List (TokenKind × String) → Prop where

  | nil : Reads [] []

  | layout {cs text rest : List Char} {words : List (TokenKind × String)} :
      Lexeme.next? cs = some ⟨none, text, rest⟩ → Reads rest words → Reads cs words

  | word {cs text rest : List Char} {kind : TokenKind} {words : List (TokenKind × String)} :
      Lexeme.next? cs = some ⟨some kind, text, rest⟩ → Reads rest words →
      Reads cs ((kind, String.ofList text) :: words)

namespace Reads

variable {cs rest : List Char} {words : List (TokenKind × String)}

theorem spelled {kind : TokenKind} {text : List Char} (h : Spelled kind text) (hr : Stops rest)
    (hw : Reads rest words) : Reads (text ++ rest) ((kind, String.ofList text) :: words) :=
  .word (next?_of_spelled h hr) hw

theorem blank {c : Char} (hc : isBlank c = true) (h : Reads cs words) : Reads (c :: cs) words := by
  have hn (c : Char) (hc : isBlank c = true) (cs : List Char) : Lexeme.next? (c :: cs) =
      some ⟨none, c :: cs.takeWhile isBlank, cs.dropWhile isBlank⟩ := by
    simp [Lexeme.next?, rules, Pattern.split?, Pattern.runOf, hc, Lexicon.layout]
  cases cs with
  | nil => exact .layout (hn c hc []) h
  | cons d cs =>
    by_cases hd : isBlank d = true
    · have hr : Reads (cs.dropWhile isBlank) words := by
        cases h with
        | layout hl h =>
          cases (hn d hd cs).symm.trans hl
          exact h
        | word hl _ => cases (hn d hd cs).symm.trans hl
      refine .layout (hn c hc (d :: cs)) ?_
      rwa [List.dropWhile_cons_of_pos hd]
    · refine .layout (hn c hc (d :: cs)) ?_
      rwa [List.dropWhile_cons_of_neg hd]

end Reads

section Scanning

variable {cs : List Char} {lexeme : Lexeme} {words : List (TokenKind × String)}

theorem scan_of_next? (h : Lexeme.next? cs = some lexeme) (cursor : Cursor) :
    scan cursor cs =
      { scan (cursor.advance (byteLength lexeme.text)) lexeme.rest with
        tokens := (lexeme.token? cursor).toList ++
          (scan (cursor.advance (byteLength lexeme.text)) lexeme.rest).tokens } := by
  rw [scan]
  split
  · next hn => cases h.symm.trans hn
  · next hn =>
    cases h.symm.trans hn
    rfl

theorem scan_of_next?_none (h : Lexeme.next? cs = none) (cursor : Cursor) :
    scan cursor cs = ⟨[], cursor, cs⟩ := by
  rw [scan]
  split
  · rfl
  · next hn => cases h.symm.trans hn

/-- The words that a text is read as are those of its tokens. -/
theorem Reads.scan (h : Reads cs words) (cursor : Cursor) :
    (scan cursor cs).rest = [] ∧ (scan cursor cs).tokens.map Token.word = words := by
  induction h generalizing cursor with
  | nil => rw [scan_of_next?_none rfl]; exact ⟨rfl, rfl⟩
  | layout hn _ ih =>
    rw [scan_of_next? hn]
    exact ih _
  | word hn _ ih =>
    rw [scan_of_next? hn]
    refine ⟨(ih _).1, ?_⟩
    simp only [Lexeme.token?, Option.map_some, Option.toList_some, List.cons_append,
      List.nil_append, List.map_cons, (ih _).2]
    rfl

theorem Reads.tokenize {source : String} (h : Reads source.toList words) (file : String) :
    ∃ tokens ending, tokenize file source = .ok (tokens ++ [ending]) ∧
      ending.kind = .endOfInput ∧ tokens.map Token.word = words := by
  obtain ⟨hr, hw⟩ := h.scan (.start file)
  refine ⟨_, .ending ((Stylesheet.scan (.start file) source.toList).stop.span 0), ?_, rfl, hw⟩
  simp only [Stylesheet.tokenize, hr]

theorem spelled_of_mem_scan {cursor : Cursor} {token : Token} (h : token ∈ (scan cursor cs).tokens)
    (hk : token.kind ∈ selectorKinds) : Spelled token.kind token.text.toList := by
  induction hn : cs.length using Nat.strongRecOn generalizing cs cursor with
  | ind n ih =>
    subst hn
    cases hl : Lexeme.next? cs with
    | none =>
      rw [scan_of_next?_none hl] at h
      cases h
    | some lexeme =>
      rw [scan_of_next? hl] at h
      rcases List.mem_append.mp h with h | h
      · obtain ⟨kind, hkind, rfl⟩ := Option.map_eq_some_iff.mp (Option.mem_toList.mp h)
        simpa using spelled_of_next? hl hkind hk
      · exact ih _ (Lexeme.length_rest_lt hl) h rfl

theorem spelled_of_mem_tokenize {file source : String} {tokens : List Token} {token : Token}
    (h : tokenize file source = .ok tokens) (hm : token ∈ tokens)
    (hk : token.kind ∈ selectorKinds) : Spelled token.kind token.text.toList := by
  simp only [tokenize] at h
  split at h
  · cases h
    rcases List.mem_append.mp hm with hm | hm
    · exact spelled_of_mem_scan hm hk
    · rw [List.mem_singleton.mp hm, Token.ending] at hk
      exact absurd hk (show TokenKind.endOfInput ∉ selectorKinds by decide)
  · cases h

end Scanning

end Stylesheet
