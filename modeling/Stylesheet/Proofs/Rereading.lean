import Stylesheet.Proofs.RoundTrip
import Stylesheet.Proofs.Tiling

/-! # Reading again

What was read from a source is read again without the rest of it. The texts of
its tokens joined by spaces have the same words. A source that is refused is read
up to the character where reading stopped, and no front of it is read further.
-/

namespace Stylesheet

open Text Lexicon Pattern

/-! ## Words joined by spaces -/

section Joined

variable {rest text : List Char} {kind : TokenKind} {words : List (TokenKind × String)}

theorem Word.next?_append (h : Word kind text) (hr : ∀ c ∈ rest.head?, opensLayout c = true) :
    Lexeme.next? (text ++ rest) = some ⟨some kind, text, rest⟩ := by
  have hn : Lexeme.next? (text ++ []) = some ⟨some kind, text, []⟩ := by
    rw [List.append_nil, h.next?]
  cases rest with
  | nil => exact hn
  | cons c rest => exact Lexeme.next?_token_append hn (hr c rfl) rest

theorem head?_spaced (words : List (TokenKind × String)) :
    ∀ c ∈ ((words.map (·.2.toList)).flatMap ([' '] ++ ·)).head?, opensLayout c = true := by
  cases words with
  | nil => simp
  | cons =>
    rintro _ ⟨⟩
    rfl

theorem reads_spaced (h : ∀ word ∈ words, Word word.1 word.2.toList) :
    Reads ((words.map (·.2.toList)).flatMap ([' '] ++ ·)) words := by
  induction words with
  | nil => exact .nil
  | cons word words ih =>
    obtain ⟨hw, hws⟩ := List.forall_mem_cons.mp h
    have hread := Reads.word (hw.next?_append (head?_spaced words)) (ih hws)
    rw [String.ofList_toList] at hread
    exact hread.blank rfl

theorem reads_joined (h : ∀ word ∈ words, Word word.1 word.2.toList) :
    Reads (" ".intercalate (words.map Prod.snd)).toList words := by
  cases words with
  | nil => exact .nil
  | cons word words =>
    obtain ⟨hw, hws⟩ := List.forall_mem_cons.mp h
    rw [String.toList_intercalate, List.map_map, List.map_cons, Css.intercalate_cons]
    have hread := Reads.word (hw.next?_append (head?_spaced words)) (reads_spaced hws)
    rwa [String.ofList_toList] at hread

theorem word_of_mem_scan {cursor : Cursor} {cs : List Char} {token : Token}
    (h : token ∈ (scan cursor cs).tokens) : Word token.kind token.text.toList := by
  induction cursor, cs using scan.induct with
  | case1 cursor cs hn =>
    rw [scan_of_next?_none hn] at h
    cases h
  | case2 cursor cs lexeme hn hlt ih =>
    rw [scan_of_next? hn] at h
    obtain ⟨kind?, text, rest⟩ := lexeme
    rcases List.mem_append.mp h with h | h
    · obtain ⟨kind, rfl, rfl⟩ := Option.map_eq_some_iff.mp (Option.mem_toList.mp h)
      rw [String.toList_ofList]
      exact word_of_next? hn
    · exact ih h

end Joined

/-- The texts of the tokens of a source, joined by spaces, are read as tokens of the
same kinds with the same texts. -/
theorem tokenize_joined {file source : String} {tokens : List Token}
    (h : tokenize file source = .ok tokens) :
    ∃ words ending, tokens = words ++ [ending] ∧ ending.kind = .endOfInput ∧
      (∀ token ∈ words, token.kind ≠ .endOfInput) ∧
      ∀ file', ∃ tokens', tokenize file' (" ".intercalate (words.map Token.text)) = .ok tokens' ∧
        tokens'.map Token.word = tokens.map Token.word := by
  obtain ⟨hr, rfl⟩ := tokenize_eq_ok_iff.mp h
  refine ⟨_, _, rfl, rfl, fun token hm => (word_of_mem_scan hm).kind_ne, fun file' => ?_⟩
  have hw : ∀ word ∈ (scan (.start file) source.toList).tokens.map Token.word,
      Word word.1 word.2.toList := by
    intro word hm
    obtain ⟨token, ht, rfl⟩ := List.mem_map.mp hm
    exact word_of_mem_scan ht
  generalize scan (.start file) source.toList = read at hw ⊢
  have hread := reads_joined hw
  rw [List.map_map] at hread
  have hall : (read.tokens ++ [Token.ending (read.stop.span 0)]).map Token.word =
      read.tokens.map Token.word ++ [(.endOfInput, "EOF")] := List.map_append ..
  have htokens := hasWordsOf_of_reads hread hall file'
  rwa [HasWordsOf, String.ofList_toList] at htokens

theorem tokenize_joined_tight :
    ∃ tokens, tokenize "a" "a-b.1-#abcdef-#abcdef:=:2px3%4-iffy*if" = .ok tokens ∧
      ∃ tokens', tokenize "b" (" ".intercalate ["a-b", ".1-", "#abcdef-", "#abcdef", ":=", ":",
        "2px", "3%", "4", "-", "iffy", "*", "if"]) = .ok tokens' ∧
        tokens'.map Token.word = tokens.map Token.word := by
  let place (start stop : UInt32) : Span := ⟨⟨start, "a"⟩, ⟨stop, "a"⟩⟩
  let words : List Token := [⟨.lowerName, "a-b", place 0 3⟩, ⟨.classSelector, ".1-", place 3 6⟩,
    ⟨.idSelector, "#abcdef-", place 6 14⟩, ⟨.color, "#abcdef", place 14 21⟩,
    ⟨.assign, ":=", place 21 23⟩, ⟨.colon, ":", place 23 24⟩, ⟨.pixel, "2px", place 24 27⟩,
    ⟨.percentage, "3%", place 27 29⟩, ⟨.scalar, "4", place 29 30⟩, ⟨.minus, "-", place 30 31⟩,
    ⟨.lowerName, "iffy", place 31 35⟩, ⟨.star, "*", place 35 36⟩, ⟨.ifWord, "if", place 36 38⟩]
  have ht : tokenize "a" "a-b.1-#abcdef-#abcdef:=:2px3%4-iffy*if" =
      .ok (words ++ [.ending (place 38 38)]) := mem_toOption.mp (by decide +kernel)
  obtain ⟨words', ending, he, -, -, hj⟩ := tokenize_joined ht
  obtain ⟨rfl, -⟩ := List.append_inj' he rfl
  exact ⟨_, ht, hj "b"⟩

/-! ## Where reading stops -/

/-- Reading stops behind a front of the text. That front is read to its end, and
with more of the text behind it reading stops at the same place. -/
theorem exists_front (cursor : Cursor) (cs : List Char) :
    ∃ front, cs = front ++ (scan cursor cs).rest ∧
      (scan cursor cs).stop = cursor.advance (byteLength front) ∧
      Lexeme.next? (scan cursor cs).rest = none ∧
      ∀ {rest}, rest <+: (scan cursor cs).rest →
        scan cursor (front ++ rest) = ⟨(scan cursor cs).tokens, (scan cursor cs).stop, rest⟩ := by
  induction cursor, cs using scan.induct with
  | case1 cursor cs hn =>
    rw [scan_of_next?_none hn]
    refine ⟨[], rfl, rfl, hn, fun hp => ?_⟩
    exact scan_of_next?_none (Lexeme.next?_eq_none_of_cut hn hp) cursor
  | case2 cursor cs lexeme hn hlt ih =>
    obtain ⟨front, hf, hs, hnone, hcut⟩ := ih
    obtain ⟨kind?, text, rest⟩ := lexeme
    obtain rfl : text ++ rest = cs := Lexeme.append_of_next? hn
    rw [scan_of_next? hn]
    refine ⟨text ++ front, ?_, ?_, hnone, fun {rest'} hp => ?_⟩
    · rw [List.append_assoc, ← hf]
    · rw [byteLength_append, ← Cursor.advance_advance]
      exact hs
    · have hl : Lexeme.next? (text ++ (front ++ rest')) =
          some ⟨kind?, text, front ++ rest'⟩ := by
        obtain ⟨more, hm⟩ := hp
        refine Lexeme.next?_of_cut hn ⟨more, ?_⟩
        rw [List.append_assoc, hm]
        exact hf.symm
      rw [List.append_assoc, scan_of_next? hl, hcut hp]
      rfl

theorem tokenize_eq_error_iff {file source : String} {fault : Fault} :
    tokenize file source = .error fault ↔ ∃ c back,
      (scan (.start file) source.toList).rest = c :: back ∧
      fault = ⟨.unrecognised (String.singleton c),
        (scan (.start file) source.toList).stop.position⟩ := by
  rw [tokenize_eq_outcome, Scan.outcome]
  split
  · next hr => simp [hr]
  · next c back hr =>
    rw [hr]
    constructor
    · rintro ⟨⟩
      exact ⟨c, back, rfl, rfl⟩
    · rintro ⟨_, _, ⟨⟩, rfl⟩
      rfl

/-- A fault stands at the first character that starts no lexeme. The source before it
is read by itself, with the tokens that were read before the fault, and each longer
front of the source is refused for the same fault. -/
theorem tokenize_fault_ends_front {file source : String} {fault : Fault}
    (hl : byteLength source.toList < UInt32.size) (h : tokenize file source = .error fault) :
    ∃ front c back, source.toList = front ++ c :: back ∧
      fault.cause = .unrecognised (String.singleton c) ∧ fault.position.file = file ∧
      fault.position.offset.toNat = byteLength front ∧
      byteLength front < byteLength source.toList ∧
      (∀ rule ∈ rules, rule.pattern.split? (c :: back) = none) ∧
      (∀ {text rest}, Skips text rest → text ++ rest ≠ c :: back) ∧
      (∀ {kind text}, Word kind text → ¬ text <+: c :: back) ∧
      tokenize file (String.ofList front) = .ok ((scan (.start file) source.toList).tokens ++
        [.ending ⟨fault.position, fault.position⟩]) ∧
      ∀ {longer}, front ++ [c] <+: longer → longer <+: source.toList →
        tokenize file (String.ofList longer) = .error fault := by
  obtain ⟨c, back, hr, rfl⟩ := tokenize_eq_error_iff.mp h
  obtain ⟨front, hf, hs, hn, hcut⟩ := exists_front (.start file) source.toList
  rw [hr] at hf hn hcut
  have hlt : byteLength front < byteLength source.toList := by
    have hc := c.utf8Size_pos
    rw [hf, byteLength_append, byteLength_cons]
    omega
  have hp : (scan (.start file) source.toList).stop.position.offset.toNat = byteLength front := by
    rw [hs, toNat_offset_position (by omega)]
  obtain ⟨hskips, hwords⟩ := next?_eq_none_iff_unrecognised.mp hn
  refine ⟨front, c, back, hf, rfl, by rw [hs]; rfl, hp, hlt, Lexeme.next?_eq_none_iff.mp hn,
    hskips, hwords, ?_, ?_⟩
  · have hfront := hcut List.nil_prefix
    rw [List.append_nil] at hfront
    rw [tokenize_eq_ok_iff, String.toList_ofList, hfront]
    exact ⟨rfl, rfl⟩
  · rintro _ ⟨more, rfl⟩ hlonger
    rw [List.append_assoc, hf, List.prefix_append_right_inj] at hlonger
    rw [List.append_assoc, tokenize_eq_error_iff, String.toList_ofList, hcut hlonger]
    exact ⟨c, more, rfl, rfl⟩

theorem tokenize_fault_ends_front_comment :
    ∃ source fault, source = "a /*\u00e9*/ 1 /* \u00fc" ∧
      byteLength source.toList < UInt32.size ∧ tokenize "a" source = .error fault ∧
      ∃ front c back, source.toList = front ++ c :: back ∧ byteLength front = 11 ∧
        fault.cause = .unrecognised (String.singleton c) ∧
        (tokenize "a" (String.ofList front)).toOption.isSome ∧
        tokenize "a" (String.ofList (front ++ [c])) = .error fault := by
  let source := "a /*\u00e9*/ 1 /* \u00fc"
  let fault : Fault := ⟨.unrecognised "/", ⟨11, "a"⟩⟩
  have hl : byteLength source.toList < UInt32.size := by decide +kernel
  have ht : tokenize "a" source = .error fault :=
    tokenize_eq_error_iff.mpr ⟨'/', ['*', ' ', '\u00fc'], by decide +kernel, by decide +kernel⟩
  obtain ⟨front, c, back, hf, hc, -, hp, -, -, -, -, hfront, hlonger⟩ :=
    tokenize_fault_ends_front hl ht
  refine ⟨source, fault, rfl, hl, ht, front, c, back, hf, hp.symm, hc, by rw [hfront]; rfl, ?_⟩
  refine hlonger (List.prefix_refl _) ⟨back, ?_⟩
  rw [hf, List.append_assoc]
  rfl

end Stylesheet
