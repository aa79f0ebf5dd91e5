import Stylesheet.Proofs.Blame
import Stylesheet.Proofs.Delivery
import Stylesheet.Proofs.Markers
import Stylesheet.Proofs.Nesting

/-! # Where reports point

A source is refused at a place of its own. Diagnostics point to tokens, and faults
point to a character that starts no lexeme or to a token that cannot come where it
stands. Only a fault at the closing token stands at the end of the source, where no
line is left to be shown.
-/

namespace Stylesheet

open Text Derives

namespace Fault

/-- A source cannot be read further than a character. -/
def AtChar (fault : Fault) (file source : String) (c : Char) : Prop :=
  tokenize file source = .error fault ∧ ∃ front back, source.toList = front ++ [c] ++ back ∧
    byteLength front = fault.position.offset.toNat ∧ Lexeme.next? (c :: back) = none

/-- The tokens of a source cannot be read further than one of them. -/
def AtToken (fault : Fault) (file source : String) (token : Token) : Prop :=
  ∃ tokens rest, tokenize file source = .ok tokens ∧ token ∈ tokens ∧
    readDocument .standard file (.ofTokens file tokens) = .error fault rest ∧ rest.current = token

end Fault

/-! ## Refused sources -/

section Refused

variable {file source : String} {fault : Fault} {diagnostics : List Diagnostic}

theorem compile_of_parse {root : Node} (hp : parse file source = .ok root) :
    ∃ reports, check root = .ok reports ∧
      ((∃ css, (compile file source).1 = .ok css) ∨
        (compile file source).1 = .error (.problems reports)) := by
  obtain ⟨-, children, rfl, -⟩ := items_of_parse hp
  have hc := check_document children
    ⟨⟨0, file⟩, (scan (.start file) source.toList).stop.position⟩
  refine ⟨_, hc, ?_⟩
  cases hs : Diagnostic.sort (childrenReports Scope.empty.push 0 children) with
  | nil =>
    rw [hs] at hc
    obtain ⟨_, h⟩ := compile_of_accepted hp hc
    rw [h, produce_document]
    exact .inl ⟨_, rfl⟩
  | cons problem problems =>
    rw [hs] at hc
    exact .inr (compile_of_problems hp hc)

theorem parse_of_faulty (h : (compile file source).1 = .error (.faulty fault)) :
    parse file source = .error fault := by
  cases hp : parse file source with
  | error fault' =>
    cases (compile_of_fault hp).symm.trans h
    rfl
  | ok root =>
    obtain ⟨_, -, ⟨_, hr⟩ | hr⟩ := compile_of_parse hp <;> cases hr.symm.trans h

theorem check_of_problems (h : (compile file source).1 = .error (.problems diagnostics)) :
    ∃ root, parse file source = .ok root ∧ check root = .ok diagnostics := by
  cases hp : parse file source with
  | error fault => cases (compile_of_fault hp).symm.trans h
  | ok root =>
    obtain ⟨_, hc, ⟨_, hr⟩ | hr⟩ := compile_of_parse hp
    · cases hr.symm.trans h
    · cases hr.symm.trans h
      exact ⟨root, rfl, hc⟩

end Refused

/-! ## Texts of tokens -/

/-- The text of a token stands in the source where its span starts. -/
theorem exists_text_of_mem_scan {cursor : Cursor} {cs : List Char} {token : Token}
    (h : token ∈ (scan cursor cs).tokens) :
    ∃ left right, cs = left ++ token.text.toList ++ right ∧
      token.span.start = (cursor.advance (byteLength left)).position := by
  induction cursor, cs using scan.induct with
  | case1 cursor cs hn =>
    rw [scan_of_next?_none hn] at h
    cases h
  | case2 cursor cs lexeme hn hlt ih =>
    rw [scan_of_next? hn] at h
    obtain ⟨kind?, text, rest⟩ := lexeme
    obtain rfl : text ++ rest = cs := Lexeme.append_of_next? hn
    rcases List.mem_append.mp h with h | h
    · obtain ⟨kind, rfl, rfl⟩ := Option.map_eq_some_iff.mp (Option.mem_toList.mp h)
      exact ⟨[], rest, by rw [String.toList_ofList]; rfl, rfl⟩
    · obtain ⟨left, right, hr, hs⟩ := ih h
      refine ⟨text ++ left, right, ?_, ?_⟩
      · rw [List.append_assoc, List.append_assoc, ← List.append_assoc left, ← hr]
      · rw [hs, Cursor.advance_advance, byteLength_append]

theorem Word.isBlank_eq_false {kind : TokenKind} {text : List Char} (h : Word kind text) :
    ∀ c ∈ text, isBlank c = false := by
  intro c hc
  have ho := Lexeme.not_opensLayout_of_next? h.next? c hc
  rw [Lexicon.opensLayout, Bool.or_eq_false_iff] at ho
  exact ho.1

theorem isBlank_eq_false_of_next? {c : Char} {cs : List Char} (h : Lexeme.next? (c :: cs) = none) :
    isBlank c = false := by
  rw [Bool.eq_false_iff]
  intro hc
  obtain ⟨run, rest, rfl, hr, hrest⟩ := exists_run isBlank cs
  have hs : Skips (c :: run) rest :=
    .blanks (List.cons_ne_nil c run) (List.forall_mem_cons.mpr ⟨hc, hr⟩) hrest
  exact (next?_eq_none_iff_unrecognised.mp h).1 hs rfl

section Shown

variable {file source : String} {offset : UInt32}

theorem marks_token (hl : byteLength source.toList < UInt32.size) {token : Token}
    (ht : token ∈ (scan (.start file) source.toList).tokens) :
    token.startByte < byteLength source.toList ∧ ∀ file' headline, ∃ column caret,
      Marks source.toList token.startByte token.text.toList column caret
        (excerpt source file' token.span.start.offset headline).toList := by
  obtain ⟨left, right, hs, hstart⟩ := exists_text_of_mem_scan ht
  have hw := word_of_mem_scan ht
  have hn : token.text.toList ≠ [] := Lexeme.ne_nil_of_next? hw.next?
  have hlt : byteLength left < byteLength source.toList := by
    rw [hs]
    exact byteLength_lt_of_append hn
  have ho : token.startByte = byteLength left := by
    rw [Token.startByte, hstart, toNat_offset_position (by omega)]
  refine ⟨by omega, fun file' headline => ?_⟩
  obtain ⟨column, caret, hm, -⟩ := marks_excerpt hs ho.symm hn hw.isBlank_eq_false file' headline
  exact ⟨column, caret, hm⟩

theorem isSome_find?_iff :
    (Line.find? source offset).isSome = true ↔ offset.toNat < byteLength source.toList := by
  rw [Option.isSome_iff_ne_none, ne_eq, Line.find?_eq_none_iff, Nat.not_le]

theorem excerpt_eq_iff {headline : String} :
    excerpt source file offset headline = headline ++ "\n-> " ++ file ++ "\n" ↔
      byteLength source.toList ≤ offset.toNat := by
  rw [← Line.find?_eq_none_iff, excerpt]
  cases Line.find? source offset with
  | none => simp
  | some line => simp [Line.render]

end Shown

/-! ## Faults -/

section Faults

variable {file source : String} {fault : Fault} {token : Token}

theorem blames_of_readDocument {stream rest : TokenStream}
    (h : readDocument .standard file stream = .error fault rest) :
    Blames (fun tokens => ∃ items, Items tokens items) stream fault rest := by
  rcases bind_eq_error.mp h with hs | ⟨children, between, _, hd⟩
  · exact (predictive_readStatements.follows stream).blames hs
  · cases hd

theorem TokenStream.current_mem {rest : TokenStream} {words taken : List Token} {ending : Token}
    (he : ending.kind = .endOfInput)
    (h : ofTokens file (words ++ [ending]) = rest.prepend taken) :
    rest.current ∈ words ++ [ending] := by
  rw [ofTokens_concat file he] at h
  obtain ⟨rfl, hr⟩ := eq_prepend_of_prepend_eq rfl h
  cases hp : rest.pending with
  | nil =>
    rw [hp] at hr
    rw [hr, prepend_nil, current_closed he]
    simp
  | cons token later => simp [current, hp]

theorem exists_atToken {tokens : List Token} (ht : tokenize file source = .ok tokens)
    (hp : parse file source = .error fault) : ∃ token, fault.AtToken file source token := by
  rw [parse_of_tokenize ht, parseTokens] at hp
  split at hp
  · cases hp
  · next fault' rest hr =>
    cases hp
    obtain ⟨-, rfl⟩ := tokenize_eq_ok_iff.mp ht
    obtain ⟨taken, more, hv, -⟩ := (blames_of_readDocument hr).viable
    exact ⟨rest.current, _, rest, ht, TokenStream.current_mem rfl hv, hr, rfl⟩

namespace Fault

theorem AtToken.position_eq (h : fault.AtToken file source token) :
    fault.position = token.span.start := by
  obtain ⟨tokens, rest, -, -, hr, rfl⟩ := h
  exact (blames_of_readDocument hr).position

theorem AtToken.word_or_ending (h : fault.AtToken file source token) :
    token ∈ (scan (.start file) source.toList).tokens ∨
      token = .ending (((Cursor.start file).advance (byteLength source.toList)).span 0) := by
  obtain ⟨tokens, rest, ht, hm, -⟩ := h
  obtain ⟨hr, rfl⟩ := tokenize_eq_ok_iff.mp ht
  rw [stop_of_scan hr, List.mem_append, List.mem_singleton] at hm
  exact hm

theorem AtToken.file_eq (h : fault.AtToken file source token) : fault.position.file = file := by
  rw [h.position_eq]
  rcases h.word_or_ending with hm | rfl
  · exact (file_of_mem_scan hm).1
  · rfl

theorem AtToken.inside_or_end (hl : byteLength source.toList < UInt32.size)
    (h : fault.AtToken file source token) :
    token.kind ≠ .endOfInput ∧ fault.position.offset.toNat < byteLength source.toList ∨
      token.kind = .endOfInput ∧ fault.position.offset.toNat = byteLength source.toList := by
  rw [h.position_eq]
  rcases h.word_or_ending with hm | rfl
  · exact .inl ⟨(word_of_mem_scan hm).kind_ne, (marks_token hl hm).1⟩
  · exact .inr ⟨rfl, toNat_offset_position hl⟩

theorem AtToken.marks (hl : byteLength source.toList < UInt32.size)
    (h : fault.AtToken file source token) (hk : token.kind ≠ .endOfInput) :
    ∃ column caret, Marks source.toList fault.position.offset.toNat token.text.toList column caret
      (fault.display source).toList := by
  rcases h.word_or_ending with hm | rfl
  · rw [display, h.position_eq]
    exact (marks_token hl hm).2 _ _
  · exact absurd rfl hk

end Fault

theorem exists_atChar (hl : byteLength source.toList < UInt32.size)
    (h : tokenize file source = .error fault) :
    fault.position.file = file ∧ ∃ c, fault.AtChar file source c := by
  obtain ⟨c, back, hr, rfl⟩ := tokenize_eq_error_iff.mp h
  obtain ⟨front, hf, hs, hn, -⟩ := exists_front (.start file) source.toList
  rw [hr] at hf hn
  have hc : source.toList = front ++ [c] ++ back := by
    rw [hf, List.append_assoc]
    rfl
  have hlt : byteLength front < byteLength source.toList := by
    rw [hc]
    exact byteLength_lt_of_append (List.cons_ne_nil c [])
  refine ⟨by rw [hs]; rfl, c, h, front, back, hc, ?_, hn⟩
  rw [hs, toNat_offset_position (by omega)]

theorem Fault.AtChar.marks {c : Char} (h : fault.AtChar file source c) :
    fault.position.offset.toNat < byteLength source.toList ∧ ∃ column caret,
      Marks source.toList fault.position.offset.toNat [c] column caret
        (fault.display source).toList := by
  obtain ⟨-, front, back, hs, ho, hn⟩ := h
  have hc : ∀ d ∈ [c], isBlank d = false :=
    List.forall_mem_singleton.mpr (isBlank_eq_false_of_next? hn)
  obtain ⟨column, caret, hm, -⟩ := marks_excerpt hs ho (List.cons_ne_nil c []) hc _ _
  refine ⟨?_, column, caret, hm⟩
  rw [← ho, hs]
  exact byteLength_lt_of_append (List.cons_ne_nil c [])

end Faults

/-! ## Diagnostics -/

theorem Part.mem_children {part child : Part} (h : child ∈ part.children) :
    Piece.part child ∈ (Piece.part part).children := by
  obtain ⟨node⟩ | ⟨e⟩ := part
  · cases node with
    | rule selectors body span => exact List.mem_append_right _ (List.mem_map_of_mem h)
    | _ => exact List.mem_map_of_mem h
  · exact List.mem_map_of_mem h

theorem Piece.Below.of_at? {root : Piece} {part target : Part} {path : TreePath}
    (h : root.Below (.part part)) (ht : part.at? path = some target) :
    root.Below (.part target) := by
  induction path generalizing part with
  | nil =>
    cases ht
    exact h
  | cons index path ih =>
    obtain ⟨child, hc, ht⟩ := Part.at?_cons_eq_some_iff.mp ht
    exact ih (.deeper h (Part.mem_children (List.mem_of_getElem? hc))) ht

theorem exists_token_of_mem_check {file source : String} {root : Node}
    {diagnostics : List Diagnostic} (hp : parse file source = .ok root)
    (hc : check root = .ok diagnostics) {diagnostic : Diagnostic} (h : diagnostic ∈ diagnostics) :
    ∃ token ∈ (scan (.start file) source.toList).tokens,
      diagnostic.span.start = token.span.start := by
  obtain ⟨-, children, htree, -⟩ := items_of_parse hp
  rw [htree, check_document] at hc
  cases hc
  obtain ⟨i, child, hi, rest, target, -, ht, hs⟩ :=
    childrenReports_on _ 0 children diagnostic ((List.mergeSort_perm ..).mem_iff.mp h)
  have hm : Piece.part (.node child) ∈ (Piece.part (.node root)).children := by
    rw [htree]
    exact List.mem_map_of_mem (List.mem_map_of_mem (List.mem_of_getElem? hi))
  have hb := (Piece.Below.child hm).of_at? ht
  obtain ⟨before, run, after, he, hw⟩ := exists_run_of_parse hp hb
  obtain ⟨first, hf, hstart⟩ := hw.runsOver.exists_first
  refine ⟨first, ?_, ?_⟩
  · rw [he]
    simp [hf]
  · rw [← hs]
    exact hstart

/-- A refused source is refused at a place of its own. Each diagnostic starts at a
token, whose line it quotes. A fault stands at a character that starts no lexeme or
at a token, and it quotes the line there, except at the closing token, which alone
stands at the end of the source. -/
theorem refusals_point_into_source {file source : String}
    (hl : byteLength source.toList < UInt32.size) :
    (∀ {diagnostics}, (compile file source).1 = .error (.problems diagnostics) →
      ∀ diagnostic ∈ diagnostics, diagnostic.span.start.file = file ∧
        ∃ tokens token, tokenize file source = .ok tokens ∧ token ∈ tokens ∧
          token.kind ≠ .endOfInput ∧ diagnostic.span.start = token.span.start ∧
          diagnostic.span.start.offset.toNat < byteLength source.toList ∧
          (Line.find? source diagnostic.span.start.offset).isSome = true ∧
          ∃ column caret, Marks source.toList diagnostic.span.start.offset.toNat
            token.text.toList column caret (diagnostic.display source).toList) ∧
    ∀ {fault}, (compile file source).1 = .error (.faulty fault) →
      fault.position.file = file ∧
      ((∃ c, fault.AtChar file source c ∧
          fault.position.offset.toNat < byteLength source.toList ∧
          ∃ column caret, Marks source.toList fault.position.offset.toNat [c] column caret
            (fault.display source).toList) ∨
        ∃ token, fault.AtToken file source token ∧ fault.position = token.span.start ∧
          (token.kind ≠ .endOfInput → ∃ column caret, Marks source.toList
            fault.position.offset.toNat token.text.toList column caret
            (fault.display source).toList)) ∧
      (fault.position.offset.toNat = byteLength source.toList ↔
        ∃ token, fault.AtToken file source token ∧ token.kind = .endOfInput) ∧
      (fault.position.offset.toNat = byteLength source.toList ↔
        fault.display source = fault.cause.headline ++ "\n-> " ++ file ++ "\n") := by
  constructor
  · intro diagnostics h diagnostic hd
    obtain ⟨root, hp, hc⟩ := check_of_problems h
    obtain ⟨token, ht, hs⟩ := exists_token_of_mem_check hp hc hd
    obtain ⟨hlt, hm⟩ := marks_token hl ht
    have htokens := tokenize_eq_ok_iff.mpr ⟨(items_of_parse hp).1, rfl⟩
    rw [Diagnostic.display, hs]
    exact ⟨(file_of_mem_scan ht).1, _, token, htokens, List.mem_append_left _ ht,
      (word_of_mem_scan ht).kind_ne, rfl, hlt, isSome_find?_iff.mpr hlt, hm _ _⟩
  · intro fault h
    have hp := parse_of_faulty h
    -- Characters are refused before tokens are looked at, so only one of both can be.
    cases ht : tokenize file source with
    | error fault' =>
      obtain rfl : fault' = fault := by
        rw [parse, ht] at hp
        cases hp
        rfl
      obtain ⟨hfile, c, hc⟩ := exists_atChar hl ht
      obtain ⟨hlt, hm⟩ := hc.marks
      refine ⟨hfile, .inl ⟨c, hc, hlt, hm⟩, iff_of_false (by omega) ?_, ?_⟩
      · rintro ⟨token, ⟨_, _, hok, -⟩, -⟩
        cases ht.symm.trans hok
      · rw [Fault.display, hfile, excerpt_eq_iff]
        omega
    | ok tokens =>
      obtain ⟨token, hat⟩ := exists_atToken ht hp
      refine ⟨hat.file_eq, .inr ⟨token, hat, hat.position_eq, hat.marks hl⟩, ⟨?_, ?_⟩, ?_⟩
      · intro he
        rcases hat.inside_or_end hl with ⟨-, hlt⟩ | ⟨hk, -⟩
        · omega
        · exact ⟨token, hat, hk⟩
      · rintro ⟨token', hat', hk⟩
        rcases hat'.inside_or_end hl with ⟨hn, -⟩ | ⟨-, he⟩
        · exact absurd hk hn
        · exact he
      · have hplace := hat.inside_or_end hl
        rw [Fault.display, hat.file_eq, excerpt_eq_iff]
        omega

/-- A variable that is not bound is reported at its place, and a rule that is not
closed at the end of the source. -/
theorem refusals_point_into_source_open :
    (∃ source diagnostic, source = "/* \u00e9 */ p \x7b width: W; \x7d" ∧
      byteLength source.toList < UInt32.size ∧
      (compile "a" source).1 = .error (.problems [diagnostic]) ∧
      diagnostic.span.start.offset.toNat = 20 ∧
      ∃ (token : Token) (column caret : Nat), diagnostic.span.start = token.span.start ∧
        Marks source.toList 20 token.text.toList column caret
          (diagnostic.display source).toList) ∧
    ∃ source fault, source = "p \x7b" ∧ byteLength source.toList < UInt32.size ∧
      (compile "a" source).1 = .error (.faulty fault) ∧ fault.position.offset.toNat = 3 ∧
      ∃ token, fault.AtToken "a" source token ∧ token.kind = .endOfInput := by
  constructor
  · let source := "/* \u00e9 */ p \x7b width: W; \x7d"
    have hl : byteLength source.toList < UInt32.size := by decide +kernel
    have h : ∃ root ∈ (parse "a" source).toOption, ∃ diagnostics ∈ (check root).toOption,
        ∃ diagnostic ∈ diagnostics, diagnostics = [diagnostic] ∧
          diagnostic.span.start.offset.toNat = 20 := by decide +kernel
    obtain ⟨root, hp, _, hc, diagnostic, hd, rfl, ho⟩ := h
    have hr := compile_of_problems (mem_toOption.mp hp) (mem_toOption.mp hc)
    obtain ⟨-, _, token, -, -, -, hs, -, -, column, caret, hm⟩ :=
      (refusals_point_into_source hl).1 hr diagnostic hd
    rw [ho] at hm
    exact ⟨source, diagnostic, rfl, hl, hr, ho, token, column, caret, hs, hm⟩
  · let source := "p \x7b"
    have hl : byteLength source.toList < UInt32.size := by decide +kernel
    have h : (match parse "a" source with
        | .ok _ => 0
        | .error fault => fault.position.offset.toNat) = 3 := by decide +kernel
    split at h
    · cases h
    · next fault hp =>
      have hr := compile_of_fault hp
      have hlength : fault.position.offset.toNat = byteLength source.toList := by
        rw [h]
        decide +kernel
      obtain ⟨-, -, hend, -⟩ := (refusals_point_into_source hl).2 hr
      exact ⟨source, fault, rfl, hl, hr, h, hend.mp hlength⟩

end Stylesheet
