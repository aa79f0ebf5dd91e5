import Stylesheet.Proofs.LongestMatch
import Stylesheet.Proofs.Spans

/-! # Tokens tile their source

The span of each token cuts its text out of the source. Before the first token,
between tokens and behind the last one stand blanks and comments and nothing
else. Every place at which a source is read is a boundary of its characters.
-/

namespace Stylesheet

open Text

/-- Pieces of layout, one behind the other, before the rest of a source. -/
inductive Gap : List Char → List Char → Prop where

  | nil {rest : List Char} : Gap [] rest

  | cons {piece gap rest : List Char} : Skips piece (gap ++ rest) → Gap gap rest →
      Gap (piece ++ gap) rest

def IsGap (source : List Char) (start stop : Nat) : Prop :=
  ∃ front gap rest, source = front ++ gap ++ rest ∧ byteLength front = start ∧
    byteLength (front ++ gap) = stop ∧ Gap gap rest

namespace Token

def startByte (token : Token) : Nat := token.span.start.offset.toNat

def stopByte (token : Token) : Nat := token.span.stop.offset.toNat

/-- The span of a token cuts its text out of a source. -/
structure CutFrom (token : Token) (source : List Char) : Prop where
  kind_ne : token.kind ≠ .endOfInput
  start_lt_stop : token.startByte < token.stopByte
  slice_eq : slice? token.startByte token.stopByte source = some token.text.toList

end Token

/-- From a place in a source on, tokens are cut out by their spans and only layout
stands between them. -/
inductive Tiled (source : List Char) : Nat → List Token → Prop where

  | nil {place : Nat} : IsGap source place (byteLength source) → Tiled source place []

  | cons {place : Nat} {token : Token} {tokens : List Token} :
      IsGap source place token.startByte → token.CutFrom source →
      Tiled source token.stopByte tokens → Tiled source place (token :: tokens)

/-- The cursors at which a source is read: its start, and the place behind each
lexeme. -/
inductive Visited (file source : String) : Cursor → Prop where

  | start : Visited file source (.start file)

  | behind {cursor : Cursor} {rest : String} {lexeme : Lexeme} : Visited file source cursor →
      cursor.remainder? source = some rest → Lexeme.next? rest.toList = some lexeme →
      Visited file source (cursor.advance (byteLength lexeme.text))

def Scan.behind (read : Scan) (before : List Token) : Scan :=
  { read with tokens := before ++ read.tokens }

section Gaps

variable {source front text rest : List Char} {place stop : Nat} {tokens : List Token}

theorem append_inj_of_byteLength {s t u v : List Char} (h : s ++ t = u ++ v)
    (hb : byteLength s = byteLength u) : s = u ∧ t = v := by
  have hs := takeBytes?_append s t
  rw [h, hb, takeBytes?_append] at hs
  cases hs
  exact ⟨rfl, List.append_cancel_left h⟩

theorem IsGap.le (h : IsGap source place stop) : place ≤ stop := by
  obtain ⟨front, gap, rest, -, rfl, rfl, -⟩ := h
  rw [byteLength_append]
  omega

theorem isGap_empty (h : source = front ++ rest) :
    IsGap source (byteLength front) (byteLength front) :=
  ⟨front, [], rest, by simpa using h, rfl, by simp, .nil⟩

theorem IsGap.skip (h : source = front ++ (text ++ rest)) (hs : Skips text rest)
    (hg : IsGap source (byteLength (front ++ text)) stop) :
    IsGap source (byteLength front) stop := by
  obtain ⟨front', gap, rest', he, hb, rfl, hg⟩ := hg
  rw [h, ← List.append_assoc, List.append_assoc front'] at he
  obtain ⟨rfl, rfl⟩ := append_inj_of_byteLength he hb.symm
  exact ⟨front, text ++ gap, rest', by simp [h], rfl, by simp, .cons hs hg⟩

theorem Tiled.skip (h : source = front ++ (text ++ rest)) (hs : Skips text rest)
    (ht : Tiled source (byteLength (front ++ text)) tokens) :
    Tiled source (byteLength front) tokens := by
  cases ht with
  | nil hg => exact .nil (hg.skip h hs)
  | cons hg hc ht => exact .cons (hg.skip h hs) hc ht

theorem Tiled.word {token : Token} (h : source = front ++ text ++ rest)
    (hstart : token.startByte = byteLength front)
    (hstop : token.stopByte = byteLength (front ++ text)) (htext : token.text.toList = text)
    (hw : Word token.kind text) (ht : Tiled source (byteLength (front ++ text)) tokens) :
    Tiled source (byteLength front) (token :: tokens) := by
  rw [← hstop] at ht
  refine .cons ?_ ⟨hw.kind_ne, ?_, ?_⟩ ht
  · rw [hstart]
    exact isGap_empty (h.trans (List.append_assoc ..))
  · obtain ⟨c, cs, rfl, -⟩ := hw.exists_cons
    have hc := c.utf8Size_pos
    rw [hstart, hstop, byteLength_append, byteLength_cons]
    omega
  · rw [hstart, hstop, htext, h, slice?_append]

theorem toNat_offset_position {file : String} (h : byteLength front < UInt32.size) :
    ((Cursor.start file).advance (byteLength front)).position.offset.toNat = byteLength front := by
  rw [Cursor.position, Cursor.advance, Cursor.start, Nat.zero_add, UInt32.toNat_ofNat_of_lt' h]

theorem tiled_of_scan {file : String} {cursor : Cursor} {cs : List Char}
    (hl : byteLength source < UInt32.size) (hs : source = front ++ cs)
    (hc : cursor = (Cursor.start file).advance (byteLength front))
    (hr : (scan cursor cs).rest = []) :
    Tiled source (byteLength front) (scan cursor cs).tokens := by
  induction cursor, cs using scan.induct generalizing front with
  | case1 cursor cs hn =>
    rw [scan_of_next?_none hn] at hr ⊢
    obtain rfl : cs = [] := hr
    obtain rfl : source = front := by simpa using hs
    exact .nil (isGap_empty hs)
  | case2 cursor cs lexeme hn hlt ih =>
    rw [scan_of_next? hn] at hr ⊢
    obtain ⟨kind?, text, rest⟩ := lexeme
    obtain rfl : text ++ rest = cs := Lexeme.append_of_next? hn
    have hs' : source = front ++ text ++ rest := by rw [hs, List.append_assoc]
    have hc' : cursor.advance (byteLength text) =
        (Cursor.start file).advance (byteLength (front ++ text)) := by
      rw [hc, Cursor.advance_advance, byteLength_append]
    have ht := ih hs' hc' hr
    cases kind? with
    | none => exact ht.skip hs (skips_of_next? hn)
    | some kind =>
      have hlen : byteLength front + byteLength text + byteLength rest < UInt32.size := by
        rwa [hs', byteLength_append, byteLength_append] at hl
      refine ht.word hs' ?_ ?_ String.toList_ofList (word_of_next? hn)
      · change cursor.position.offset.toNat = _
        rw [hc, toNat_offset_position (by omega)]
      · change (cursor.advance (byteLength text)).position.offset.toNat = _
        rw [hc', toNat_offset_position (by rw [byteLength_append]; omega)]

end Gaps

namespace Tiled

variable {source : List Char} {place : Nat} {tokens : List Token}

theorem cutFrom (h : Tiled source place tokens) : ∀ token ∈ tokens, token.CutFrom source := by
  induction h with
  | nil => simp
  | cons _ hc _ ih => exact List.forall_mem_cons.mpr ⟨hc, ih⟩

theorem le_startByte (h : Tiled source place tokens) :
    ∀ token ∈ tokens, place ≤ token.startByte := by
  induction h with
  | nil => simp
  | cons hg hc _ ih =>
    refine List.forall_mem_cons.mpr ⟨hg.le, fun token hm => ?_⟩
    have := hg.le
    have := hc.start_lt_stop
    have := ih token hm
    omega

theorem pairwise (h : Tiled source place tokens) :
    tokens.Pairwise fun a b => a.stopByte ≤ b.startByte := by
  induction h with
  | nil => exact .nil
  | cons _ _ ht ih => exact .cons ht.le_startByte ih

theorem isGap (h : Tiled source place tokens) :
    ∀ gap ∈ (place :: tokens.map Token.stopByte).zip
        (tokens.map Token.startByte ++ [byteLength source]), IsGap source gap.1 gap.2 := by
  induction h with
  | nil hg => simpa using hg
  | cons hg _ _ ih => exact List.forall_mem_cons.mpr ⟨hg, ih⟩

end Tiled

theorem remainder?_of_append {file source : String} {front rest : List Char}
    (h : source.toList = front ++ rest) :
    ((Cursor.start file).advance (byteLength front)).remainder? source =
      some (String.ofList rest) := by
  rw [Cursor.remainder?, Cursor.advance, Cursor.start, Nat.zero_add, h, dropBytes?_append]
  rfl

theorem Visited.scan_eq {file source : String} {cursor : Cursor} (h : Visited file source cursor) :
    ∃ before front rest, source.toList = front ++ rest ∧
      cursor = (Cursor.start file).advance (byteLength front) ∧
      scan (.start file) source.toList = (scan cursor rest).behind before := by
  induction h with
  | start => exact ⟨[], [], source.toList, rfl, rfl, rfl⟩
  | @behind cursor rest lexeme _ hr hn ih =>
    obtain ⟨before, front, rest', he, rfl, hs⟩ := ih
    obtain rfl : String.ofList rest' = rest :=
      Option.some.inj ((remainder?_of_append he).symm.trans hr)
    rw [String.toList_ofList] at hn
    have hs' := scan_of_next? hn ((Cursor.start file).advance (byteLength front))
    refine ⟨before ++ (lexeme.token? ((Cursor.start file).advance (byteLength front))).toList,
      front ++ lexeme.text, lexeme.rest, ?_, ?_, ?_⟩
    · rw [he, List.append_assoc, Lexeme.append_of_next? hn]
    · rw [Cursor.advance_advance, byteLength_append]
    · rw [hs, hs', Scan.behind, Scan.behind, List.append_assoc]

/-- The tokens of a source tile it. Each but the closing one is cut out by its span,
they stand in order, and the gaps before, between and behind them hold layout only.
The closing token stands at the end of the source. Wherever reading passes, the
source has a remainder, from which reading goes on. -/
theorem tokens_tile_source {file source : String} {tokens : List Token}
    (hl : byteLength source.toList < UInt32.size) (ht : tokenize file source = .ok tokens) :
    ∃ words ending, tokens = words ++ [ending] ∧
      (∀ token ∈ words, token.CutFrom source.toList) ∧
      words.Pairwise (fun a b => a.stopByte ≤ b.startByte) ∧
      (∀ gap ∈ (0 :: words.map Token.stopByte).zip (tokens.map Token.startByte),
        IsGap source.toList gap.1 gap.2) ∧
      ending.kind = .endOfInput ∧ ending.startByte = byteLength source.toList ∧
      ending.stopByte = byteLength source.toList ∧
      ∀ {cursor}, Visited file source cursor →
        ∃ before rest, cursor.remainder? source = some rest ∧
          scan (.start file) source.toList = (scan cursor rest.toList).behind before := by
  obtain ⟨hr, rfl⟩ := tokenize_eq_ok_iff.mp ht
  have hc : Cursor.start file = (Cursor.start file).advance (byteLength []) := rfl
  have htiled : Tiled source.toList 0 _ := tiled_of_scan hl rfl hc hr
  have hend : ((scan (.start file) source.toList).stop.position).offset.toNat =
      byteLength source.toList := by
    rw [stop_of_scan hr, toNat_offset_position hl]
  refine ⟨_, _, rfl, htiled.cutFrom, htiled.pairwise, ?_, rfl, hend, hend, ?_⟩
  · have hg := htiled.isGap
    rw [← hend] at hg
    rwa [List.map_append]
  · intro cursor hv
    obtain ⟨before, front, rest, he, rfl, hs⟩ := hv.scan_eq
    refine ⟨before, String.ofList rest, ?_, ?_⟩
    · exact remainder?_of_append he
    · rwa [String.toList_ofList]

theorem tokens_tile_source_comments :
    ∃ source tokens, source = "/* \u00e9 */p // \u00fc\n\u3000: //" ∧
      byteLength source.toList < UInt32.size ∧ tokenize "a" source = .ok tokens ∧
      slice? 19 20 source.toList = some ":".toList ∧ IsGap source.toList 0 8 ∧
      IsGap source.toList 9 19 ∧ IsGap source.toList 20 23 ∧
      ∃ rest, (Cursor.mk "a" 8).remainder? source = some rest := by
  let source := "/* \u00e9 */p // \u00fc\n\u3000: //"
  let name : Token := ⟨.lowerName, "p", ⟨⟨8, "a"⟩, ⟨9, "a"⟩⟩⟩
  let colon : Token := ⟨.colon, ":", ⟨⟨19, "a"⟩, ⟨20, "a"⟩⟩⟩
  have hl : byteLength source.toList < UInt32.size := by decide +kernel
  have ht : tokenize "a" source = .ok ([name, colon] ++ [.ending ⟨⟨23, "a"⟩, ⟨23, "a"⟩⟩]) :=
    mem_toOption.mp (by decide +kernel)
  have hn : ∃ lexeme ∈ Lexeme.next? source.toList, byteLength lexeme.text = 8 := by decide +kernel
  have hr : ((Cursor.start "a").advance (byteLength [])).remainder? source =
      some (String.ofList source.toList) := remainder?_of_append rfl
  obtain ⟨words, ending, he, hc, -, hg, -, -, -, hv⟩ := tokens_tile_source hl ht
  obtain ⟨rfl, -⟩ := List.append_inj' he rfl
  obtain ⟨lexeme, hn, hb⟩ := hn
  have hb : Visited "a" source ⟨"a", 8⟩ := by
    have hv := Visited.behind .start hr (by rwa [String.toList_ofList])
    rwa [hb] at hv
  obtain ⟨before, rest, hrest, -⟩ := hv hb
  exact ⟨source, _, rfl, hl, ht, (hc colon (by simp)).slice_eq, hg (0, 8) (by decide),
    hg (9, 19) (by decide), hg (20, 23) (by decide), rest, hrest⟩

end Stylesheet
