import Stylesheet.Cursor
import Stylesheet.Fault
import Stylesheet.Token.Lexicon

/-! # Scanning

A source is read lexeme by lexeme until it ends or no rule of the lexicon
applies. Each lexeme leaves a shorter rest, so every scan ends.
-/

namespace Stylesheet

open Text

/-- A lexeme, the kind of token it is if any, and what follows it. -/
structure Lexeme where
  kind? : Option TokenKind
  text : List Char
  rest : List Char

namespace Lexeme

/-- The lexeme at the start of a text, by the first rule that applies. -/
def next? (cs : List Char) : Option Lexeme :=
  Lexicon.rules.findSome? fun rule =>
    (rule.pattern.split? cs).map fun (text, rest) => ⟨rule.kind? text, text, rest⟩

theorem exists_rule_of_next? {cs : List Char} {lexeme : Lexeme} (h : next? cs = some lexeme) :
    ∃ rule ∈ Lexicon.rules, rule.pattern.split? cs = some (lexeme.text, lexeme.rest) ∧
      rule.kind? lexeme.text = lexeme.kind? := by
  obtain ⟨rule, hr, h⟩ := List.exists_of_findSome?_eq_some h
  obtain ⟨⟨text, rest⟩, hs, rfl⟩ := Option.map_eq_some_iff.mp h
  exact ⟨rule, hr, hs, rfl⟩

theorem append_of_next? {cs : List Char} {lexeme : Lexeme} (h : next? cs = some lexeme) :
    lexeme.text ++ lexeme.rest = cs := by
  obtain ⟨rule, _, hs, _⟩ := exists_rule_of_next? h
  exact Pattern.append_of_split? hs

theorem length_rest_lt {cs : List Char} {lexeme : Lexeme} (h : next? cs = some lexeme) :
    lexeme.rest.length < cs.length := by
  obtain ⟨rule, hr, hs, _⟩ := exists_rule_of_next? h
  exact Pattern.length_lt_of_split? (Lexicon.consumes_of_mem_rules rule hr) hs

def token? (lexeme : Lexeme) (cursor : Cursor) : Option Token :=
  lexeme.kind?.map fun kind =>
    ⟨kind, String.ofList lexeme.text, cursor.span (byteLength lexeme.text)⟩

end Lexeme

/-- The tokens of a source as far as it can be read, the cursor at which
reading stops, and the text from there on. -/
structure Scan where
  tokens : List Token
  stop : Cursor
  rest : List Char

def scan (cursor : Cursor) (cs : List Char) : Scan :=
  match h : Lexeme.next? cs with
  | none => ⟨[], cursor, cs⟩
  | some lexeme =>
    have := Lexeme.length_rest_lt h
    let later := scan (cursor.advance (byteLength lexeme.text)) lexeme.rest
    { later with tokens := (lexeme.token? cursor).toList ++ later.tokens }
termination_by cs.length

/-- The tokens of a source with the closing one, or the first character that
starts no lexeme. -/
def tokenize (file source : String) : Except Fault (List Token) :=
  let read := scan (.start file) source.toList
  match read.rest with
  | [] => .ok (read.tokens ++ [.ending (read.stop.span 0)])
  | c :: _ => .error ⟨.unrecognised (String.singleton c), read.stop.position⟩

end Stylesheet
