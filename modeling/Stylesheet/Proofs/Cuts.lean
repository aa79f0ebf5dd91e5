import Stylesheet.Proofs.Boundaries

/-! # Cutting a source at its tokens

A source that is cut right before or right behind one of its tokens falls into
parts that are read on their own as they were read together.
-/

namespace Stylesheet

open Text

/-- Reading a text lexeme by lexeme passes the end of its first part, right behind
a token. -/
inductive EndsToken : List Char → List Char → Prop where

  | token {text rest : List Char} {kind : TokenKind} :
      Lexeme.next? (text ++ rest) = some ⟨some kind, text, rest⟩ → EndsToken text rest

  | lexeme {text front rest : List Char} {kind? : Option TokenKind} :
      Lexeme.next? (text ++ (front ++ rest)) = some ⟨kind?, text, front ++ rest⟩ →
      EndsToken front rest → EndsToken (text ++ front) rest

section Scanning

variable {cursor : Cursor} {cs front rest text : List Char} {kind? : Option TokenKind}

theorem scan_nil (cursor : Cursor) : scan cursor [] = ⟨[], cursor, []⟩ :=
  scan_of_next?_none rfl cursor

theorem tokenize_eq_ok_iff {file source : String} {tokens : List Token} :
    tokenize file source = .ok tokens ↔
      (scan (.start file) source.toList).rest = [] ∧
      tokens = (scan (.start file) source.toList).tokens ++
        [.ending ((scan (.start file) source.toList).stop.span 0)] := by
  simp only [tokenize]
  split
  · next h =>
    rw [Except.ok.injEq, eq_comm]
    exact (and_iff_right h).symm
  · next h =>
    constructor
    · intro hf
      cases hf
    · rintro ⟨hn, -⟩
      cases h.symm.trans hn

theorem Cursor.advance_advance (cursor : Cursor) (m n : Nat) :
    (cursor.advance m).advance n = cursor.advance (m + n) := by
  rw [advance, advance, advance, Nat.add_assoc]

/-- The tokens of a text up to one of them are those of its first part, which ends
right behind that token. -/
structure CutBehind (cursor : Cursor) (before : List Token) (token : Token)
    (front rest : List Char) : Prop where
  ends : EndsToken front rest
  scan_eq : scan cursor front = ⟨before ++ [token], cursor.advance (byteLength front), []⟩
  stop_eq : token.span.stop = (cursor.advance (byteLength front)).position
  suffix : token.text.toList <:+ front

theorem CutBehind.token {kind : TokenKind}
    (h : Lexeme.next? (text ++ rest) = some ⟨some kind, text, rest⟩) (cursor : Cursor) :
    CutBehind cursor [] ⟨kind, String.ofList text, cursor.span (byteLength text)⟩ text rest where
  ends := .token h
  scan_eq := by
    have hn := Lexeme.next?_of_cut h List.nil_prefix
    rw [List.append_nil] at hn
    rw [scan_of_next? hn, scan_nil]
    rfl
  stop_eq := rfl
  suffix := ⟨[], by simp⟩

theorem CutBehind.lexeme {before : List Token} {token : Token}
    (h : CutBehind (cursor.advance (byteLength text)) before token front rest)
    (hl : Lexeme.next? (text ++ (front ++ rest)) = some ⟨kind?, text, front ++ rest⟩) :
    CutBehind cursor (((Lexeme.mk kind? text (front ++ rest)).token? cursor).toList ++ before) token
      (text ++ front) rest where
  ends := .lexeme hl h.ends
  scan_eq := by
    rw [scan_of_next? (Lexeme.next?_of_cut hl (List.prefix_append front rest)), h.scan_eq,
      Cursor.advance_advance, byteLength_append, List.append_assoc]
    rfl
  stop_eq := by rw [h.stop_eq, Cursor.advance_advance, byteLength_append]
  suffix := h.suffix.trans (List.suffix_append text front)

/-- A text can be cut right behind each of its tokens. -/
theorem exists_cutBehind {before after : List Token} {token : Token}
    (h : (scan cursor cs).tokens = before ++ token :: after) :
    ∃ front rest, cs = front ++ rest ∧ CutBehind cursor before token front rest := by
  induction cursor, cs using scan.induct generalizing before with
  | case1 cursor cs hn =>
    rw [scan_of_next?_none hn] at h
    simp at h
  | case2 cursor cs lexeme hn hlt ih =>
    rw [scan_of_next? hn] at h
    obtain ⟨kind?, text, rest⟩ := lexeme
    obtain rfl := Lexeme.append_of_next? hn
    cases kind? with
    | none =>
      obtain ⟨front, rest', rfl, hc⟩ := ih h
      exact ⟨text ++ front, rest', (List.append_assoc ..).symm, hc.lexeme hn⟩
    | some kind =>
      cases before with
      | nil =>
        obtain ⟨rfl, -⟩ := List.cons_eq_cons.mp h
        exact ⟨text, rest, rfl, .token hn cursor⟩
      | cons first before =>
        obtain ⟨rfl, hb⟩ := List.cons_eq_cons.mp h
        obtain ⟨front, rest', rfl, hc⟩ := ih hb
        exact ⟨text ++ front, rest', (List.append_assoc ..).symm, hc.lexeme hn⟩

theorem exists_cutBefore {before after : List Token} {token : Token}
    (h : (scan cursor cs).tokens = before ++ token :: after) :
    ∃ front rest, cs = front ++ rest ∧
      (scan (cursor.advance (byteLength front)) rest).tokens = token :: after ∧
      token.span.start = (cursor.advance (byteLength front)).position := by
  induction cursor, cs using scan.induct generalizing before with
  | case1 cursor cs hn =>
    rw [scan_of_next?_none hn] at h
    simp at h
  | case2 cursor cs lexeme hn hlt ih =>
    have hs := scan_of_next? hn cursor
    rw [hs] at h
    obtain ⟨kind?, text, rest⟩ := lexeme
    obtain rfl := Lexeme.append_of_next? hn
    -- The cut is found behind the first lexeme.
    have hbehind {before' : List Token}
        (h' : (scan (cursor.advance (byteLength text)) rest).tokens =
          before' ++ token :: after) : ∃ front rest', text ++ rest = front ++ rest' ∧
        (scan (cursor.advance (byteLength front)) rest').tokens = token :: after ∧
        token.span.start = (cursor.advance (byteLength front)).position := by
      obtain ⟨front, rest', rfl, ht, hp⟩ := ih h'
      refine ⟨text ++ front, rest', (List.append_assoc ..).symm, ?_, ?_⟩
      · rwa [byteLength_append, ← Cursor.advance_advance]
      · rwa [byteLength_append, ← Cursor.advance_advance]
    cases kind? with
    | none => exact hbehind h
    | some kind =>
      cases before with
      | nil =>
        refine ⟨[], text ++ rest, rfl, ?_, ?_⟩
        · change (scan cursor (text ++ rest)).tokens = _
          rw [hs]
          exact h
        · obtain ⟨rfl, -⟩ := List.cons_eq_cons.mp h
          rfl
      | cons first before => exact hbehind (List.cons_eq_cons.mp h).2

end Scanning

end Stylesheet
