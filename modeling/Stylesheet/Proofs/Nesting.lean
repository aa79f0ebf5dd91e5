import Stylesheet.Proofs.Addresses
import Stylesheet.Proofs.Rereading

/-! # Nested spans

What is parsed from a source spans its tokens, from the start of the first to the
end of the last. The tokens of its children stand among them, one child behind the
other. So the spans of a tree nest, and those of siblings stand in order.
-/

namespace Stylesheet

open Text Derives

/-- What has a span in a tree: nodes, expressions and the selectors of rules. -/
inductive Piece where
  | selector (selector : Selector)
  | part (part : Part)

namespace Piece

def span : Piece → Span
  | selector s => s.span
  | part p => p.span

def children : Piece → List Piece
  | selector _ => []
  | part (.node (.rule selectors body _)) => selectors.map selector ++ (body.map .node).map part
  | part p => p.children.map part

inductive Below (root : Piece) : Piece → Prop where

  | child {piece : Piece} : piece ∈ root.children → Below root piece

  | deeper {parent piece : Piece} : Below root parent → piece ∈ parent.children →
      Below root piece

end Piece

/-- The tokens that write a piece. -/
inductive Written : List Token → Piece → Prop where

  | selector {token : Token} : token.IsSelector → Written [token] (.selector token.selector)

  | expr {tokens : List Token} {e : Expr} : Sum tokens e → Written tokens (.part (.expr e))

  | item {tokens : List Token} {item : Node} : Items tokens [item] →
      Written tokens (.part (.node item))

  | branch {word opening closing : Token} {inner : List Token} {items : List Node} :
      word.kind = .elseWord → opening.kind = .openBrace → Items inner items →
      closing.kind = .closeBrace → Written (word :: (opening :: inner) ++ [closing])
        (.part (.node (.alternative ⟨items, ⟨word.span.start, closing.span.stop⟩⟩)))

/-- Pieces stand in order among tokens, each written by tokens of its own. -/
inductive Row : List Token → List Piece → Prop where

  | nil {tokens : List Token} : Row tokens []

  | cons (before : List Token) {tokens later : List Token} {piece : Piece} {pieces : List Piece} :
      Written tokens piece → Row later pieces →
      Row (before ++ tokens ++ later) (piece :: pieces)

/-! ## Children among the tokens of their parent -/

namespace Row

variable {tokens tokens' : List Token} {piece : Piece} {pieces pieces' : List Piece}

theorem single (h : Written tokens piece) : Row tokens [piece] := by
  have hr := Row.cons [] h (.nil : Row [] [])
  simpa using hr

theorem behind (h : Row tokens pieces) (before : List Token) : Row (before ++ tokens) pieces := by
  cases h with
  | nil => exact .nil
  | cons between hw hr =>
    have h := Row.cons (before ++ between) hw hr
    simpa using h

theorem append (h : Row tokens pieces) (h' : Row tokens' pieces') :
    Row (tokens ++ tokens') (pieces ++ pieces') := by
  induction h with
  | nil => exact h'.behind _
  | cons before hw _ ih =>
    have h := Row.cons before hw ih
    simpa using h

theorem before (h : Row tokens pieces) (later : List Token) : Row (tokens ++ later) pieces := by
  have hr := h.append (.nil : Row later [])
  rwa [List.append_nil] at hr

theorem exists_run (h : Row tokens pieces) (hp : piece ∈ pieces) :
    ∃ before run after, tokens = before ++ run ++ after ∧ Written run piece := by
  induction h with
  | nil => cases hp
  | @cons before run later first pieces hw _ ih =>
    rcases List.mem_cons.mp hp with rfl | hp
    · exact ⟨before, run, later, rfl, hw⟩
    · obtain ⟨between, run', after, rfl, hw'⟩ := ih hp
      exact ⟨before ++ run ++ between, run', after, by simp, hw'⟩

end Row

section Children

variable {tokens : List Token}

theorem Derives.Product.row {e : Expr} (h : Product tokens e) :
    Row tokens (Piece.part (.expr e)).children := by
  cases h with
  | primary hp => cases hp <;> exact .nil
  | @times tokens sign token left right hl _ hp =>
    have hr := (Row.single (.expr (.product (.primary hp)))).behind [sign]
    exact (Row.single (.expr (.product hl))).append hr

theorem Derives.Sum.row {e : Expr} (h : Sum tokens e) :
    Row tokens (Piece.part (.expr e)).children := by
  cases h with
  | product hp => exact hp.row
  | @plus tokens later sign left right hl _ hp =>
    exact (Row.single (.expr hl)).append ((Row.single (.expr (.product hp))).behind [sign])
  | @minus tokens later sign left right hl _ hp =>
    exact (Row.single (.expr hl)).append ((Row.single (.expr (.product hp))).behind [sign])

theorem Derives.MoreSelectors.row {selectors : List Selector} (h : MoreSelectors tokens selectors) :
    Row tokens (selectors.map .selector) := by
  induction h with
  | nil => exact .nil
  | @cons comma token tokens selectors _ ht _ ih =>
    exact ((Row.single (.selector ht)).append ih).behind [comma]

theorem Derives.Items.row {items : List Node} (h : Items tokens items) :
    Row tokens ((items.map .node).map .part) := by
  induction h with
  | nil => exact .nil
  | @binding name assign stop tokens later value items hn ha hv hs _ ih =>
    simpa using (Row.single (.item (.binding hn ha hv hs .nil))).append ih
  | @declaration property colon stop tokens later value items hp hc hv hs _ ih =>
    simpa using (Row.single (.item (.declaration hp hc hv hs .nil))).append ih
  | rule hf hm ho hi hc _ _ ih =>
    simpa using (Row.single (.item (.rule hf hm ho hi hc .nil))).append ih
  | conditional hw hl hv hr ho hi hc _ _ ih =>
    simpa using (Row.single (.item (.conditional hw hl hv hr ho hi hc .nil))).append ih
  | alternative hw hl hv hr ho hi hc he ho' hi' hc' _ _ _ ih =>
    simpa using
      (Row.single (.item (.alternative hw hl hv hr ho hi hc he ho' hi' hc' .nil))).append ih

theorem Written.row {piece : Piece} (h : Written tokens piece) : Row tokens piece.children := by
  cases h with
  | selector => exact .nil
  | expr hs => exact hs.row
  | @branch word opening closing inner items _ _ hi _ =>
    exact (hi.row.behind [word, opening]).before [closing]
  | item hi =>
    cases hi with
    | @binding name assign stop tokens later value _ _ _ hv _ _ =>
      exact ((Row.single (.expr hv)).behind [name, assign]).before (stop :: later)
    | @declaration property colon stop tokens later value _ _ _ hv _ _ =>
      exact ((Row.single (.expr hv)).behind [property, colon]).before (stop :: later)
    | @rule first opening closing tokens inner later selectors body _ hf hm _ hi _ _ =>
      have hs := (Row.single (.selector hf)).append hm.row
      exact (hs.append (hi.row.behind [opening])).before (closing :: later)
    | @conditional word left right opening closing tokens inner later condition body _ _ _ hv _ _ hi
        _ _ =>
      have hc := (Row.single (.expr hv)).behind [word, left]
      have hr := (hc.append (hi.row.behind [right, opening])).before (closing :: later)
      simpa [Piece.children, Part.children] using hr
    | @alternative word left right opening closing otherwise opening' closing' tokens inner inner'
        later condition body body' _ _ _ hv _ _ hi _ he ho' hi' hc' _ =>
      have hc := (Row.single (.expr hv)).behind [word, left]
      have ha := ((Row.single (.branch he ho' hi' hc')).behind [closing]).before later
      have hr := (hc.append (hi.row.behind [right, opening])).append ha
      simpa [Piece.children, Part.children] using hr

/-- The tokens of what stands in a piece at any depth are among its tokens. -/
theorem Piece.Below.exists_run {root piece : Piece} (h : root.Below piece)
    (hr : Row tokens root.children) :
    ∃ before run after, tokens = before ++ run ++ after ∧ Written run piece := by
  induction h with
  | child hp => exact hr.exists_run hp
  | deeper _ hp ih =>
    obtain ⟨before, run, after, rfl, hw⟩ := ih
    obtain ⟨before', run', after', rfl, hw'⟩ := hw.row.exists_run hp
    exact ⟨before ++ before', run', after' ++ after, by simp, hw'⟩

end Children

/-! ## From the first token to the last -/

namespace Span

/-- A span runs from the start of the first of some tokens to the end of the last. -/
def RunsOver (span : Span) (tokens : List Token) : Prop :=
  ∃ first last, tokens.head? = some first ∧ tokens.getLast? = some last ∧
    span = ⟨first.span.start, last.span.stop⟩

def Within (inner outer : Span) : Prop :=
  outer.start.offset ≤ inner.start.offset ∧ inner.stop.offset ≤ outer.stop.offset

def Before (earlier later : Span) : Prop := earlier.stop.offset ≤ later.start.offset

theorem runsOver_ends (first last : Token) (middle : List Token) :
    RunsOver ⟨first.span.start, last.span.stop⟩ (first :: middle ++ [last]) :=
  ⟨first, last, rfl, List.getLast?_concat, rfl⟩

theorem RunsOver.join {a b : Span} {tokens later : List Token} (h : a.RunsOver tokens)
    (h' : b.RunsOver later) (between : List Token) :
    RunsOver ⟨a.start, b.stop⟩ (tokens ++ (between ++ later)) := by
  obtain ⟨first, _, hf, -, rfl⟩ := h
  obtain ⟨_, last, -, hl, rfl⟩ := h'
  refine ⟨first, last, ?_, ?_, rfl⟩
  · rw [List.head?_append, hf]
    rfl
  · rw [List.getLast?_append, List.getLast?_append, hl]
    rfl

end Span

/-- A piece lies in a file, with its children inside it and in order. -/
structure Piece.Nested (file : String) (piece : Piece) : Prop where
  start_file : piece.span.start.file = file
  stop_file : piece.span.stop.file = file
  within : ∀ child ∈ piece.children, child.span.Within piece.span
  ordered : piece.children.Pairwise fun a b => a.span.Before b.span

section Extent

variable {tokens : List Token}

theorem Derives.Primary.span_eq {token : Token} {e : Expr} (h : Primary token e) :
    e.span = token.span := by
  cases h <;> rfl

theorem Derives.Product.runsOver {e : Expr} (h : Product tokens e) : e.span.RunsOver tokens := by
  have hp {token : Token} {e : Expr} (h : Primary token e) : e.span.RunsOver [token] := by
    rw [h.span_eq]
    exact ⟨token, token, rfl, rfl, rfl⟩
  induction h with
  | primary h => exact hp h
  | @times tokens sign token left right _ _ h ih => exact ih.join (hp h) [sign]

theorem Derives.Sum.runsOver {e : Expr} (h : Sum tokens e) : e.span.RunsOver tokens := by
  induction h with
  | product hp => exact hp.runsOver
  | @plus tokens later sign left right _ _ hp ih => exact ih.join hp.runsOver [sign]
  | @minus tokens later sign left right _ _ hp ih => exact ih.join hp.runsOver [sign]

theorem Derives.Items.eq_nil (h : Items tokens []) : tokens = [] := by
  cases h
  rfl

/-- A piece spans its tokens. -/
theorem Written.runsOver {piece : Piece} (h : Written tokens piece) :
    piece.span.RunsOver tokens := by
  cases h with
  | @selector token _ => exact ⟨token, token, rfl, rfl, rfl⟩
  | expr hs => exact hs.runsOver
  | branch => exact Span.runsOver_ends ..
  | item hi =>
    cases hi with
    | binding _ _ _ _ hl =>
      obtain rfl := hl.eq_nil
      exact Span.runsOver_ends ..
    | declaration _ _ _ _ hl =>
      obtain rfl := hl.eq_nil
      exact Span.runsOver_ends ..
    | rule _ _ _ _ _ hl =>
      obtain rfl := hl.eq_nil
      exact Span.runsOver_ends ..
    | conditional _ _ _ _ _ _ _ hl =>
      obtain rfl := hl.eq_nil
      exact Span.runsOver_ends ..
    | alternative _ _ _ _ _ _ _ _ _ _ _ hl =>
      obtain rfl := hl.eq_nil
      exact Span.runsOver_ends ..

end Extent

/-! ## Tokens in order -/

structure InOrder (tokens : List Token) : Prop where
  start_lt_stop : ∀ token ∈ tokens, token.startByte < token.stopByte
  pairwise : tokens.Pairwise fun a b => a.stopByte ≤ b.startByte

section Order

variable {tokens tokens' : List Token} {span : Span} {piece : Piece} {pieces : List Piece}

theorem InOrder.sublist (h : InOrder tokens) (hs : tokens'.Sublist tokens) : InOrder tokens' :=
  ⟨fun token ht => h.start_lt_stop token (hs.subset ht), h.pairwise.sublist hs⟩

theorem Span.RunsOver.start_le (h : span.RunsOver tokens) (ho : InOrder tokens) {token : Token}
    (ht : token ∈ tokens) : span.start.offset.toNat ≤ token.startByte := by
  obtain ⟨first, last, hf, -, rfl⟩ := h
  obtain ⟨later, rfl⟩ := List.head?_eq_some_iff.mp hf
  have hlt := ho.start_lt_stop first List.mem_cons_self
  rcases List.mem_cons.mp ht with rfl | ht
  · exact Nat.le_refl _
  · have hp := (List.pairwise_cons.mp ho.pairwise).1 token ht
    exact Nat.le_trans (Nat.le_of_lt hlt) hp

theorem Span.RunsOver.le_stop (h : span.RunsOver tokens) (ho : InOrder tokens) {token : Token}
    (ht : token ∈ tokens) : token.stopByte ≤ span.stop.offset.toNat := by
  obtain ⟨first, last, -, hl, rfl⟩ := h
  obtain ⟨earlier, rfl⟩ := List.getLast?_eq_some_iff.mp hl
  have hlt := ho.start_lt_stop last (List.mem_append_right _ (List.mem_singleton.mpr rfl))
  rcases List.mem_append.mp ht with ht | ht
  · have hp := (List.pairwise_append.mp ho.pairwise).2.2 token ht last (List.mem_singleton.mpr rfl)
    exact Nat.le_trans hp (Nat.le_of_lt hlt)
  · rw [List.mem_singleton.mp ht]
    exact Nat.le_refl _

theorem Span.RunsOver.exists_first (h : span.RunsOver tokens) :
    ∃ first ∈ tokens, span.start = first.span.start := by
  obtain ⟨first, _, hf, -, rfl⟩ := h
  exact ⟨first, List.mem_of_head? hf, rfl⟩

theorem Span.RunsOver.exists_last (h : span.RunsOver tokens) :
    ∃ last ∈ tokens, span.stop = last.span.stop := by
  obtain ⟨_, last, -, hl, rfl⟩ := h
  exact ⟨last, List.mem_of_getLast? hl, rfl⟩

theorem Span.RunsOver.start_lt_stop (h : span.RunsOver tokens) (ho : InOrder tokens) :
    span.start.offset < span.stop.offset := by
  obtain ⟨first, hf, hstart⟩ := h.exists_first
  have hlt := ho.start_lt_stop first hf
  have hle := h.le_stop ho hf
  rw [hstart, UInt32.lt_iff_toNat_lt]
  exact Nat.lt_of_lt_of_le hlt hle

namespace Row

theorem within (h : Row tokens pieces) (ho : InOrder tokens) (hs : span.RunsOver tokens) :
    ∀ piece ∈ pieces, piece.span.Within span := by
  intro piece hp
  obtain ⟨before, run, after, rfl, hw⟩ := h.exists_run hp
  obtain ⟨first, hf, hstart⟩ := hw.runsOver.exists_first
  obtain ⟨last, hl, hstop⟩ := hw.runsOver.exists_last
  unfold Span.Within
  rw [hstart, hstop, UInt32.le_iff_toNat_le, UInt32.le_iff_toNat_le]
  exact ⟨hs.start_le ho (by simp [hf]), hs.le_stop ho (by simp [hl])⟩

theorem pairwise (h : Row tokens pieces) (ho : InOrder tokens) :
    pieces.Pairwise fun a b => a.span.Before b.span := by
  induction h with
  | nil => exact .nil
  | @cons before run later piece pieces hw hr ih =>
    refine .cons (fun other hp => ?_) (ih (ho.sublist (List.sublist_append_right _ _)))
    obtain ⟨between, run', after, rfl, hw'⟩ := hr.exists_run hp
    obtain ⟨last, hl, hstop⟩ := hw.runsOver.exists_last
    obtain ⟨first, hf, hstart⟩ := hw'.runsOver.exists_first
    unfold Span.Before
    rw [hstop, hstart, UInt32.le_iff_toNat_le]
    exact (List.pairwise_append.mp ho.pairwise).2.2 last (by simp [hl]) first (by simp [hf])

end Row

end Order

namespace Tiled

variable {source : List Char} {place : Nat} {tokens : List Token}

theorem inOrder (h : Tiled source place tokens) : InOrder tokens :=
  ⟨fun token ht => (h.cutFrom token ht).start_lt_stop, h.pairwise⟩

theorem place_le (h : Tiled source place tokens) : place ≤ byteLength source := by
  induction h with
  | nil hg => exact hg.le
  | cons hg hc _ ih =>
    have := hg.le
    have := hc.start_lt_stop
    omega

theorem stop_le (h : Tiled source place tokens) :
    ∀ token ∈ tokens, token.stopByte ≤ byteLength source := by
  induction h with
  | nil => exact List.forall_mem_nil _
  | cons _ _ ht ih => exact List.forall_mem_cons.mpr ⟨ht.place_le, ih⟩

end Tiled

/-! ## The tree of a source -/

theorem file_of_mem_scan {cursor : Cursor} {cs : List Char} {token : Token}
    (h : token ∈ (scan cursor cs).tokens) :
    token.span.start.file = cursor.file ∧ token.span.stop.file = cursor.file := by
  induction cursor, cs using scan.induct with
  | case1 cursor cs hn =>
    rw [scan_of_next?_none hn] at h
    cases h
  | case2 cursor cs lexeme hn hlt ih =>
    rw [scan_of_next? hn] at h
    rcases List.mem_append.mp h with h | h
    · obtain ⟨kind, hk, rfl⟩ := Option.map_eq_some_iff.mp (Option.mem_toList.mp h)
      exact ⟨rfl, rfl⟩
    · exact ih h

theorem items_of_parse {file source : String} {tree : Node} (hp : parse file source = .ok tree) :
    (scan (.start file) source.toList).rest = [] ∧ ∃ children,
      tree = .document children ⟨⟨0, file⟩, (scan (.start file) source.toList).stop.position⟩ ∧
      Items (scan (.start file) source.toList).tokens children := by
  cases ht : tokenize file source with
  | error fault =>
    rw [parse, ht] at hp
    cases hp
  | ok tokens =>
    rw [parse_of_tokenize ht] at hp
    obtain ⟨hr, rfl⟩ := tokenize_eq_ok_iff.mp ht
    refine ⟨hr, ?_⟩
    have hk : ∀ token ∈ (scan (.start file) source.toList).tokens, token.kind ≠ .endOfInput :=
      fun token hm => (word_of_mem_scan hm).kind_ne
    rw [parseTokens_iff_items rfl (TokenStream.ofTokens_concat file rfl _) hk] at hp
    obtain ⟨children, hi, rfl⟩ := hp
    exact ⟨children, rfl, hi⟩

section Source

variable {file source : String} {tree : Node} {piece : Piece}

theorem tiled_of_parse (hl : byteLength source.toList < UInt32.size)
    (hp : parse file source = .ok tree) :
    Tiled source.toList 0 (scan (.start file) source.toList).tokens := by
  have hc : Cursor.start file = (Cursor.start file).advance (byteLength []) := rfl
  exact tiled_of_scan hl rfl hc (items_of_parse hp).1

/-- What stands in a document has tokens of its own among those of the source. -/
theorem exists_run_of_parse (hp : parse file source = .ok tree)
    (hb : (Piece.part (.node tree)).Below piece) :
    ∃ before run after, (scan (.start file) source.toList).tokens = before ++ run ++ after ∧
      Written run piece := by
  obtain ⟨-, children, rfl, hi⟩ := items_of_parse hp
  exact hb.exists_run hi.row

theorem nested_of_written (hl : byteLength source.toList < UInt32.size)
    (hp : parse file source = .ok tree) {before run after : List Token}
    (ht : (scan (.start file) source.toList).tokens = before ++ run ++ after)
    (hw : Written run piece) :
    piece.span.start.offset < piece.span.stop.offset ∧ piece.Nested file := by
  have ho : InOrder run := by
    apply (tiled_of_parse hl hp).inOrder.sublist
    rw [ht, List.append_assoc]
    exact (List.sublist_append_left _ _).trans (List.sublist_append_right _ _)
  have hm : ∀ token ∈ run, token ∈ (scan (.start file) source.toList).tokens := by
    intro token hm
    simp [ht, hm]
  obtain ⟨first, hf, hstart⟩ := hw.runsOver.exists_first
  obtain ⟨last, hlast, hstop⟩ := hw.runsOver.exists_last
  refine ⟨hw.runsOver.start_lt_stop ho, ?_, ?_, hw.row.within ho hw.runsOver, hw.row.pairwise ho⟩
  · rw [hstart]
    exact (file_of_mem_scan (hm first hf)).1
  · rw [hstop]
    exact (file_of_mem_scan (hm last hlast)).2

theorem nested_of_parse (hl : byteLength source.toList < UInt32.size)
    (hp : parse file source = .ok tree) :
    (Piece.part (.node tree)).Nested file ∧ ∃ children, tree = .document children
      ⟨⟨0, file⟩, ⟨UInt32.ofNat (byteLength source.toList), file⟩⟩ := by
  have ht := tiled_of_parse hl hp
  obtain ⟨hr, children, rfl, hi⟩ := items_of_parse hp
  have hstop : (scan (.start file) source.toList).stop.position =
      ⟨UInt32.ofNat (byteLength source.toList), file⟩ := by
    rw [stop_of_scan hr, Cursor.position, Cursor.advance, Cursor.start, Nat.zero_add]
  rw [hstop]
  refine ⟨⟨rfl, rfl, fun piece hm => ?_, hi.row.pairwise ht.inOrder⟩, children, rfl⟩
  obtain ⟨before, run, after, he, hw⟩ := hi.row.exists_run hm
  obtain ⟨last, hlast, hlast'⟩ := hw.runsOver.exists_last
  constructor
  · exact UInt32.zero_le
  · rw [hlast', UInt32.le_iff_toNat_le]
    change last.stopByte ≤ (UInt32.ofNat (byteLength source.toList)).toNat
    rw [UInt32.toNat_ofNat_of_lt' hl]
    apply ht.stop_le
    simp [he, hlast]

end Source

/-- Spans nest. A document runs from the start of its source to the end. All that
stands in it, at any depth, runs from the first to the last of its tokens. Children
lie inside their parent and in the order of the source, all in the same file. -/
theorem spans_nest {file source : String} {tree : Node}
    (hl : byteLength source.toList < UInt32.size) (hp : parse file source = .ok tree) :
    ∃ words ending, tokenize file source = .ok (words ++ [ending]) ∧
      (∃ children, tree = .document children
        ⟨⟨0, file⟩, ⟨UInt32.ofNat (byteLength source.toList), file⟩⟩) ∧
      (Piece.part (.node tree)).Nested file ∧
      ∀ {piece}, (Piece.part (.node tree)).Below piece →
        piece.span.start.offset < piece.span.stop.offset ∧ piece.Nested file ∧
        ∃ before run after, words = before ++ run ++ after ∧ Written run piece ∧
          piece.span.RunsOver run := by
  obtain ⟨hn, hd⟩ := nested_of_parse hl hp
  have ht := tokenize_eq_ok_iff.mpr ⟨(items_of_parse hp).1, rfl⟩
  refine ⟨_, _, ht, hd, hn, fun {piece} hb => ?_⟩
  obtain ⟨before, run, after, he, hw⟩ := exists_run_of_parse hp hb
  obtain ⟨hlt, hnested⟩ := nested_of_written hl hp he hw
  exact ⟨hlt, hnested, before, run, after, he, hw, hw.runsOver⟩

/-- A rule with two selectors, a binding and a conditional with both branches. -/
theorem spans_nest_rule :
    ∃ source tree piece,
      source = "/* \u00e9 */ p, .a \x7b X := 1 + 2 * 3; if [B] \x7b \x7d else \x7b \x7d \x7d" ∧
      byteLength source.toList < UInt32.size ∧ parse "a" source = .ok tree ∧
      (Piece.part (.node tree)).Below piece ∧ piece.children.length = 4 ∧ piece.Nested "a" ∧
      ∃ run, Written run piece ∧ piece.span.RunsOver run := by
  let source := "/* \u00e9 */ p, .a \x7b X := 1 + 2 * 3; if [B] \x7b \x7d else \x7b \x7d \x7d"
  have hl : byteLength source.toList < UInt32.size := by decide +kernel
  have h : ∃ tree ∈ (parse "a" source).toOption,
      ∃ piece ∈ (Piece.part (.node tree)).children, piece.children.length = 4 := by
    decide +kernel
  obtain ⟨tree, hp, piece, hm, hc⟩ := h
  have hp := mem_toOption.mp hp
  obtain ⟨words, ending, -, -, -, hall⟩ := spans_nest hl hp
  obtain ⟨-, hn, before, run, after, -, hw, hr⟩ := hall (.child hm)
  exact ⟨source, tree, piece, rfl, hl, hp, .child hm, hc, hn, run, hw, hr⟩

end Stylesheet
