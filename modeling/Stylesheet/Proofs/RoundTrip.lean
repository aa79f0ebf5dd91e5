import Stylesheet.Proofs.Declarations
import Stylesheet.Proofs.Lexemes
import Stylesheet.Proofs.Parsing

/-! # Reading what was printed

A printed style sheet is read back as the rules it was printed from, provided
that its selectors, properties and values are read as single tokens. The printed
text spells a list of words, and tokens with these words derive the rules.
-/

namespace Stylesheet

open Lexicon

/-- A text that is read as one token of the kind. -/
def Lexeme.Whole (kind : TokenKind) (text : String) : Prop :=
  Lexeme.next? text.toList = some ⟨some kind, text.toList, []⟩

/-- A name of lower case letters, digits and dashes that is not reserved. -/
def IsProperty (name : String) : Prop :=
  ∃ c cs, name = String.ofList (c :: cs) ∧ c.isLower = true ∧ (∀ d ∈ cs, isLowerChar d = true) ∧
    TokenKind.reserved? name = none

namespace Literal

/-- The literals that are written in one token: colors of six digits and
quantities without a sign. -/
def Readable : Literal → Prop
  | color text => ∃ digits, text = String.ofList ('#' :: digits) ∧ digits.length = 6 ∧
      ∀ c ∈ digits, isHexDigit c = true
  | quantity value _ => 0 ≤ value.toInt
  | boolean _ => False

def kind : Literal → TokenKind
  | color _ => .color
  | quantity _ dimension => dimension.kind
  | boolean true => .trueWord
  | boolean false => .falseWord

end Literal

/-- The blocks that can be read back from print. -/
structure Css.Block.Readable (block : Css.Block) : Prop where
  selectors_ne_nil : block.selectors ≠ []
  selectors : ∀ text ∈ block.selectors, ∃ kind ∈ selectorKinds, Lexeme.Whole kind text
  properties : ∀ declaration ∈ block.declarations, IsProperty declaration.1
  values : ∀ declaration ∈ block.declarations, declaration.2.Readable

namespace Node

inductive FoldedItem : Node → Prop where

  | declaration {property : String} {value : Literal} {valueSpan span : Span} :
      FoldedItem (.declaration property (.literal value valueSpan) span)

/-- Rules that hold declarations of literals only. -/
inductive FoldedRule : Node → Prop where

  | rule {selectors : List Selector} {body : List Node} {span : Span} :
      (∀ item ∈ body, FoldedItem item) → FoldedRule (.rule selectors body span)

end Node

section Values

theorem isDecimal_render {value : Number} (hv : 0 ≤ value.toInt) :
    Number.IsDecimal value.render value.toInt.natAbs := by
  rw [Number.render, if_neg (by omega)]
  exact Number.isDecimal_toDigits _

theorem writes_render {value : Number} (hv : 0 ≤ value.toInt) :
    Number.Writes value.render value :=
  .unsigned (isDecimal_render hv) (Int.natAbs_of_nonneg hv).symm

end Values

section Spelling

theorem spelled_color_iff {cs : List Char} :
    Spelled .color cs ↔
      ∃ digits, cs = '#' :: digits ∧ digits.length = 6 ∧ ∀ c ∈ digits, isHexDigit c = true := by
  constructor
  · intro h
    generalize hk : TokenKind.color = kind at h
    cases h with
    | @hash _ digits hn hc hw =>
      subst hk
      change some (if (decide (digits.length = 6) && digits.all isHexDigit) = true then
        TokenKind.color else .idSelector) = some .color at hw
      split at hw
      · next hx =>
        rw [Bool.and_eq_true, decide_eq_true_eq, List.all_eq_true] at hx
        exact ⟨digits, rfl, hx⟩
      · cases hw
    | className => cases hk
    | name hc hd hw =>
      rcases nameOr_eq_some hw with rfl | hs
      · cases hk
      · exact absurd (by simp [← hk, selectorKinds]) hs
    | quantity dimension => cases dimension <;> cases hk
    | separator hs =>
      subst hk
      exact absurd hs (by simp [separators])
  · rintro ⟨digits, rfl, hl, hd⟩
    refine .hash (by rintro rfl; cases hl) (fun c hc => isHashChar_of_isHexDigit (hd c hc)) ?_
    simpa [hashWord, hl] using hd

theorem IsProperty.spelled {name : String} (h : IsProperty name) :
    Spelled .lowerName name.toList := by
  obtain ⟨c, cs, rfl, hc, hd, hr⟩ := h
  rw [String.toList_ofList]
  exact .name hc hd (by rw [nameOr, hr]; rfl)

theorem Lexeme.Whole.spelled {kind : TokenKind} {text : String} (h : Lexeme.Whole kind text)
    (hk : kind ∈ selectorKinds) : Spelled kind text.toList :=
  spelled_of_next? h rfl hk

theorem Lexeme.whole_of_spelled {kind : TokenKind} {text : String} (h : Spelled kind text.toList) :
    Lexeme.Whole kind text := by
  have hs : Stops [] := by simp [Stops]
  have hn := next?_of_spelled h hs
  rwa [List.append_nil] at hn

theorem Literal.Readable.spelled {literal : Literal} (h : literal.Readable) :
    Spelled literal.kind literal.render.toList := by
  cases literal with
  | color text =>
    obtain ⟨digits, rfl, hd⟩ := h
    exact spelled_color_iff.mpr ⟨digits, by rw [render, String.toList_ofList], hd⟩
  | quantity value dimension =>
    obtain ⟨hn, hd, -⟩ := isDecimal_render h
    rw [render, String.toList_ofList]
    exact .quantity dimension hn hd
  | boolean => cases h

theorem Literal.Readable.primary {literal : Literal} (h : literal.Readable) {token : Token}
    (hw : token.word = (literal.kind, literal.render)) :
    Derives.Primary token (.literal literal token.span) := by
  obtain ⟨hk, ht⟩ := Prod.mk.inj hw
  cases literal with
  | color text =>
    rw [render] at ht
    exact ht ▸ .color hk
  | quantity value dimension =>
    have hn : token.text.toList =
        value.render ++ (List.replicate 1 dimension.suffix).flatten := by
      rw [ht, render, String.toList_ofList]
      simp
    exact .quantity hk hn (writes_render h)
  | boolean => cases h

end Spelling

namespace Css

def declarationWords (declaration : String × Literal) : List (TokenKind × String) :=
  [(.lowerName, declaration.1), (.colon, ":"), (declaration.2.kind, declaration.2.render),
    (.semicolon, ";")]

def selectorWord (text : String) : TokenKind × String :=
  (((Lexeme.next? text.toList).bind Lexeme.kind?).getD .endOfInput, text)

def selectorWords (texts : List String) : List (TokenKind × String) :=
  texts.flatMap fun text => [(.comma, ","), selectorWord text]

def Block.words (block : Block) : List (TokenKind × String) :=
  (block.selectors.head?.map selectorWord).toList ++ selectorWords block.selectors.tail ++
    (.openBrace, "\x7b") :: block.declarations.flatMap declarationWords ++ [(.closeBrace, "\x7d")]

theorem selectorWord_of_whole {kind : TokenKind} {text : String} (h : Lexeme.Whole kind text) :
    selectorWord text = (kind, text) := by
  rw [selectorWord, h]
  rfl

section Reading

variable {rest : List Char} {words : List (TokenKind × String)}

theorem stops_cons {c : Char} (h : isHashChar c = false ∧ c ≠ '%' ∧ c ≠ '=') (rest : List Char) :
    Stops (c :: rest) := by
  simpa [Stops] using h

theorem reads_separator {kind : TokenKind} {c d : Char} (hs : (kind, c) ∈ separators)
    (hd : isHashChar d = false ∧ d ≠ '%' ∧ d ≠ '=') (h : Reads (d :: rest) words) :
    Reads (c :: d :: rest) ((kind, String.singleton c) :: words) := by
  have hr := Reads.spelled (.separator hs) (stops_cons hd rest) h
  rwa [← String.singleton_eq_ofList] at hr

theorem reads_line {declaration : String × Literal} (hp : IsProperty declaration.1)
    (hv : declaration.2.Readable) (h : Reads rest words) :
    Reads ((line declaration).toList ++ rest) (declarationWords declaration ++ words) := by
  have hend : Reads ('\n' :: rest) words := h.blank (by decide)
  have hs := reads_separator (show (TokenKind.semicolon, ';') ∈ separators by decide) (by decide)
    hend
  have hl := Reads.spelled hv.spelled (stops_cons (by decide) _) hs
  have hspace : Reads (' ' :: (declaration.2.render.toList ++ ';' :: '\n' :: rest)) _ :=
    hl.blank (by decide)
  have hc := reads_separator (show (TokenKind.colon, ':') ∈ separators by decide) (by decide)
    hspace
  have hn := Reads.spelled hp.spelled (stops_cons (by decide) _) hc
  have hindent : Reads (' ' :: ' ' :: _) _ := (hn.blank (by decide)).blank (by decide)
  simpa [line, declarationWords] using hindent

theorem reads_lines {declarations : List (String × Literal)}
    (hp : ∀ declaration ∈ declarations, IsProperty declaration.1)
    (hv : ∀ declaration ∈ declarations, declaration.2.Readable) (h : Reads rest words) :
    Reads (declarations.flatMap (fun declaration => (line declaration).toList) ++ rest)
      (declarations.flatMap declarationWords ++ words) := by
  induction declarations with
  | nil => exact h
  | cons declaration declarations ih =>
    obtain ⟨hp, hps⟩ := List.forall_mem_cons.mp hp
    obtain ⟨hv, hvs⟩ := List.forall_mem_cons.mp hv
    simpa using reads_line hp hv (ih hps hvs)

/-- The selectors behind the first one are read as words, and nothing of them
continues a word before them. -/
theorem reads_selectors {texts : List String}
    (hs : ∀ text ∈ texts, ∃ kind ∈ selectorKinds, Lexeme.Whole kind text) (hr : Stops rest)
    (h : Reads rest words) :
    Stops (texts.flatMap (fun text => ',' :: '\n' :: text.toList) ++ rest) ∧
      Reads (texts.flatMap (fun text => ',' :: '\n' :: text.toList) ++ rest)
        (selectorWords texts ++ words) := by
  induction texts with
  | nil => exact ⟨hr, h⟩
  | cons text texts ih =>
    obtain ⟨⟨kind, hk, hw⟩, hs⟩ := List.forall_mem_cons.mp hs
    obtain ⟨hstops, hreads⟩ := ih hs
    have ht := Reads.spelled (hw.spelled hk) hstops hreads
    have hline : Reads ('\n' :: (text.toList ++ _)) _ := ht.blank (by decide)
    have hc := reads_separator (show (TokenKind.comma, ',') ∈ separators by decide) (by decide)
      hline
    refine ⟨stops_cons (by decide) _, ?_⟩
    simpa [selectorWords, selectorWord_of_whole hw] using hc

theorem intercalate_cons {α : Type} (sep first : List α) (more : List (List α)) :
    sep.intercalate (first :: more) = first ++ more.flatMap (sep ++ ·) := by
  induction more generalizing first with
  | nil => simp
  | cons next more ih =>
    rw [List.intercalate_cons_of_ne_nil (by simp), ih]
    simp

theorem reads_block {block : Block} (hb : block.Readable) (h : Reads rest words) :
    Reads (block.text.toList ++ rest) (block.words ++ words) := by
  obtain ⟨selectors, declarations⟩ := block
  obtain ⟨text, texts, rfl⟩ := List.exists_cons_of_ne_nil hb.selectors_ne_nil
  obtain ⟨⟨kind, hk, hw⟩, hs⟩ := List.forall_mem_cons.mp hb.selectors
  have hend : Reads ('\n' :: '\n' :: rest) words := (h.blank (by decide)).blank (by decide)
  have hclose := reads_separator (show (TokenKind.closeBrace, '\x7d') ∈ separators by decide)
    (by decide) hend
  have hlines := reads_lines hb.properties hb.values hclose
  have hline : Reads ('\n' :: _) _ := hlines.blank (by decide)
  have hopen := reads_separator (show (TokenKind.openBrace, '\x7b') ∈ separators by decide)
    (by decide) hline
  have hspace : Reads (' ' :: _) _ := hopen.blank (by decide)
  obtain ⟨hstops, hmore⟩ := reads_selectors hs (stops_cons (by decide) _) hspace
  have hfirst := Reads.spelled (hw.spelled hk) hstops hmore
  have ht : Block.text ⟨text :: texts, declarations⟩ = ",\n".intercalate (text :: texts) ++
    " \x7b\n" ++ String.join (declarations.map line) ++ "\x7d\n\n" := rfl
  rw [ht]
  simpa [intercalate_cons, Block.words, selectorWord_of_whole hw, List.flatMap_map,
    String.toList_join] using hfirst

theorem reads_blocks {blocks : List Block} (h : ∀ block ∈ blocks, block.Readable) :
    Reads (String.join (blocks.map Block.text)).toList (blocks.flatMap Block.words) := by
  induction blocks with
  | nil => exact .nil
  | cons block blocks ih =>
    obtain ⟨hb, hbs⟩ := List.forall_mem_cons.mp h
    simpa using reads_block hb (ih hbs)

end Reading

section Deriving

open Derives

variable {tokens : List Token}

theorem exists_declarations {declarations : List (String × Literal)}
    (hv : ∀ declaration ∈ declarations, declaration.2.Readable)
    (h : tokens.map Token.word = declarations.flatMap declarationWords) :
    ∃ items, Items tokens items ∧ (∀ item ∈ items, item.FoldedItem) ∧
      items.filterMap printed? = declarations := by
  induction declarations generalizing tokens with
  | nil =>
    obtain rfl := List.map_eq_nil_iff.mp h
    exact ⟨[], .nil, by simp, rfl⟩
  | cons declaration declarations ih =>
    obtain ⟨hv, hvs⟩ := List.forall_mem_cons.mp hv
    obtain ⟨property, _, rfl, hp, h⟩ := List.map_eq_cons_iff.mp h
    obtain ⟨colon, _, rfl, hc, h⟩ := List.map_eq_cons_iff.mp h
    obtain ⟨value, _, rfl, hl, h⟩ := List.map_eq_cons_iff.mp h
    obtain ⟨stop, tokens, rfl, hs, h⟩ := List.map_eq_cons_iff.mp h
    obtain ⟨items, hi, hf, hd⟩ := ih hvs h
    obtain ⟨hp, ht⟩ := Prod.mk.inj hp
    have hitem := Items.declaration hp (Prod.mk.inj hc).1 (.product (.primary (hv.primary hl)))
      (Prod.mk.inj hs).1 hi
    refine ⟨_, hitem, List.forall_mem_cons.mpr ⟨.declaration, hf⟩, ?_⟩
    simp [printed?, hd, ht]

theorem exists_selectors {texts : List String}
    (hs : ∀ text ∈ texts, ∃ kind ∈ selectorKinds, Lexeme.Whole kind text)
    (h : tokens.map Token.word = selectorWords texts) :
    ∃ selectors, MoreSelectors tokens selectors ∧ selectors.map (·.text) = texts := by
  induction texts generalizing tokens with
  | nil =>
    obtain rfl := List.map_eq_nil_iff.mp h
    exact ⟨[], .nil, rfl⟩
  | cons text texts ih =>
    obtain ⟨⟨kind, hk, hw⟩, hs⟩ := List.forall_mem_cons.mp hs
    obtain ⟨comma, _, rfl, hc, h⟩ := List.map_eq_cons_iff.mp h
    obtain ⟨token, tokens, rfl, ht, h⟩ := List.map_eq_cons_iff.mp h
    obtain ⟨selectors, hm, hmap⟩ := ih hs h
    rw [selectorWord_of_whole hw] at ht
    obtain ⟨rfl, rfl⟩ := Prod.mk.inj ht
    have htoken : token.IsSelector := by simpa [Token.IsSelector, selectorKinds] using hk
    exact ⟨_, .cons (Prod.mk.inj hc).1 htoken hm, by rw [List.map_cons, hmap]; rfl⟩

theorem exists_rule {block : Block} (hb : block.Readable)
    (h : tokens.map Token.word = block.words) :
    ∃ node, Items tokens [node] ∧ node.FoldedRule ∧ blocksOf node = [block] := by
  obtain ⟨selectors, declarations⟩ := block
  obtain ⟨text, texts, rfl⟩ := List.exists_cons_of_ne_nil hb.selectors_ne_nil
  obtain ⟨⟨kind, hk, hw⟩, hs⟩ := List.forall_mem_cons.mp hb.selectors
  have hwords : tokens.map Token.word = (kind, text) :: (selectorWords texts ++
      (.openBrace, "\x7b") :: (declarations.flatMap declarationWords ++
        [(.closeBrace, "\x7d")])) := by
    simpa [Block.words, selectorWord_of_whole hw] using h
  obtain ⟨first, _, rfl, ht, h⟩ := List.map_eq_cons_iff.mp hwords
  obtain ⟨others, _, rfl, hothers, h⟩ := List.map_eq_append_iff.mp h
  obtain ⟨opening, _, rfl, ho, h⟩ := List.map_eq_cons_iff.mp h
  obtain ⟨inner, _, rfl, hinner, h⟩ := List.map_eq_append_iff.mp h
  obtain ⟨closing, _, rfl, hc, h⟩ := List.map_eq_cons_iff.mp h
  obtain rfl := List.map_eq_nil_iff.mp h
  obtain ⟨selectors, hm, rfl⟩ := exists_selectors hs hothers
  obtain ⟨items, hi, hf, rfl⟩ := exists_declarations hb.values hinner
  obtain ⟨rfl, rfl⟩ := Prod.mk.inj ht
  have hfirst : first.IsSelector := by simpa [Token.IsSelector, selectorKinds] using hk
  have hrule := Items.rule hfirst hm (Prod.mk.inj ho).1 hi (Prod.mk.inj hc).1 .nil
  exact ⟨_, by simpa using hrule, .rule hf, rfl⟩

theorem exists_rules {blocks : List Block} (hb : ∀ block ∈ blocks, block.Readable)
    (h : tokens.map Token.word = blocks.flatMap Block.words) :
    ∃ children, Items tokens children ∧ (∀ child ∈ children, child.FoldedRule) ∧
      children.flatMap blocksOf = blocks := by
  induction blocks generalizing tokens with
  | nil =>
    obtain rfl := List.map_eq_nil_iff.mp h
    exact ⟨[], .nil, by simp, rfl⟩
  | cons block blocks ih =>
    obtain ⟨hb, hbs⟩ := List.forall_mem_cons.mp hb
    obtain ⟨first, later, rfl, hf, hl⟩ := List.map_eq_append_iff.mp h
    obtain ⟨node, hn, hfolded, hblock⟩ := exists_rule hb hf
    obtain ⟨children, hc, hfs, hblocks⟩ := ih hbs hl
    refine ⟨node :: children, hn.append hc, List.forall_mem_cons.mpr ⟨hfolded, hfs⟩, ?_⟩
    rw [List.flatMap_cons, hblock, hblocks, List.singleton_append]

/-- A printed style sheet is read as rules that are printed as its blocks. -/
theorem parse_blocks (file : String) {blocks : List Block}
    (h : ∀ block ∈ blocks, block.Readable) :
    ∃ children span, parse file (String.join (blocks.map Block.text)) =
        .ok (.document children span) ∧
      (∀ child ∈ children, child.FoldedRule) ∧ children.flatMap blocksOf = blocks := by
  obtain ⟨tokens, ending, ht, he, hw⟩ := (reads_blocks h).tokenize file
  obtain ⟨children, hi, hf, hb⟩ := exists_rules h hw
  refine ⟨children, ⟨⟨0, file⟩, ending.span.start⟩, ?_, hf, hb⟩
  rw [parse, ht]
  exact parseTokens_of_derives (.closed rfl hi.kind_ne he hi)

end Deriving

end Css

namespace Node

theorem sameItems_of_printed {items others : List Node} (hi : ∀ item ∈ items, item.FoldedItem)
    (ho : ∀ other ∈ others, other.FoldedItem)
    (h : items.filterMap Css.printed? = others.filterMap Css.printed?) :
    sameItems items others = true := by
  induction items generalizing others with
  | nil =>
    cases others with
    | nil => rfl
    | cons other others =>
      obtain ⟨⟨⟩, -⟩ := List.forall_mem_cons.mp ho
      cases h
  | cons item items ih =>
    obtain ⟨⟨⟩, his⟩ := List.forall_mem_cons.mp hi
    cases others with
    | nil => cases h
    | cons other others =>
      obtain ⟨⟨⟩, hos⟩ := List.forall_mem_cons.mp ho
      obtain ⟨hd, hds⟩ := List.cons.inj h
      obtain ⟨rfl, rfl⟩ := Prod.mk.inj hd
      simp [sameItems, same, Expr.same, ih his hos hds]

/-- Folded rules that are printed alike are equal but for spans. -/
theorem sameItems_of_blocks {children others : List Node}
    (hc : ∀ child ∈ children, child.FoldedRule) (ho : ∀ other ∈ others, other.FoldedRule)
    (h : children.flatMap Css.blocksOf = others.flatMap Css.blocksOf) :
    sameItems children others = true := by
  induction children generalizing others with
  | nil =>
    cases others with
    | nil => rfl
    | cons other others =>
      obtain ⟨⟨-⟩, -⟩ := List.forall_mem_cons.mp ho
      cases h
  | cons child children ih =>
    obtain ⟨⟨hb⟩, hcs⟩ := List.forall_mem_cons.mp hc
    cases others with
    | nil => cases h
    | cons other others =>
      obtain ⟨⟨hb'⟩, hos⟩ := List.forall_mem_cons.mp ho
      obtain ⟨hd, hds⟩ := List.cons.inj h
      obtain ⟨hs, hp⟩ := Css.Block.mk.inj hd
      simp [sameItems, same, hs, sameItems_of_printed hb hb' hp, ih hcs hos hds]

end Node

/-- A document of folded rules whose blocks can be read back is printed as a text
that is read as the same document, but for spans. -/
theorem parse_render (file : String) {children : List Node} {span : Span}
    (hf : ∀ child ∈ children, child.FoldedRule)
    (hr : ∀ block ∈ Css.blocks (.document children span), block.Readable) :
    ∃ text tree, (Css.render (.document children span)).1 = .ok text ∧
      parse file text = .ok tree ∧ tree.same (.document children span) = true := by
  obtain ⟨others, place, hp, ho, hb⟩ := Css.parse_blocks file hr
  refine ⟨_, _, Css.render_document children span, hp, ?_⟩
  rw [Node.same]
  exact Node.sameItems_of_blocks ho hf hb

/-- A class and a color as selectors, the greatest number and a color as values. -/
theorem parse_render_selectors :
    ∃ children span, (∀ child ∈ children, child.FoldedRule) ∧
      (∀ block ∈ Css.blocks (.document children span), block.Readable) ∧
      (Css.render (.document children span)).1 =
        .ok ".a-1,\n#0f0F0f \x7b\n  width: 9223372036854775807px;\n  color: #0f0F0f;\n\x7d\n\n" ∧
      ∃ tree, parse "test.icss"
          ".a-1,\n#0f0F0f \x7b\n  width: 9223372036854775807px;\n  color: #0f0F0f;\n\x7d\n\n" =
          .ok tree ∧ tree.same (.document children span) = true := by
  let span : Span := ⟨⟨0, ""⟩, ⟨0, ""⟩⟩
  let children : List Node := [.rule [⟨".a-1", span⟩, ⟨"#0f0F0f", span⟩]
    [.declaration "width" (.literal (.quantity 9223372036854775807 .pixel) span) span,
      .declaration "color" (.literal (.color "#0f0F0f") span) span] span]
  have hf : ∀ child ∈ children, child.FoldedRule := by
    refine List.forall_mem_singleton.mpr (.rule ?_)
    simp only [List.mem_cons, List.not_mem_nil, or_false, forall_eq_or_imp, forall_eq]
    exact ⟨.declaration, .declaration⟩
  have hclass : Lexeme.Whole .classSelector ".a-1" := by
    simp only [Lexeme.Whole, String.reduceToList]
    rfl
  have hcolor : Lexeme.Whole .color "#0f0F0f" := by
    simp only [Lexeme.Whole, String.reduceToList]
    rfl
  have hr : ∀ block ∈ Css.blocks (.document children span), block.Readable := by
    refine List.forall_mem_singleton.mpr ⟨by decide, ?_, ?_, ?_⟩
    all_goals refine List.forall_mem_cons.mpr ⟨?_, List.forall_mem_singleton.mpr ?_⟩
    · exact ⟨.classSelector, by decide, hclass⟩
    · exact ⟨.color, by decide, hcolor⟩
    · exact ⟨'w', ['i', 'd', 't', 'h'], rfl, rfl, List.all_eq_true.mp rfl, rfl⟩
    · exact ⟨'c', ['o', 'l', 'o', 'r'], rfl, rfl, List.all_eq_true.mp rfl, rfl⟩
    · change (0 : Int) ≤ _
      decide
    · exact ⟨['0', 'f', '0', 'F', '0', 'f'], rfl, rfl, List.all_eq_true.mp rfl⟩
  have hrender : (Css.render (.document children span)).1 =
      .ok ".a-1,\n#0f0F0f \x7b\n  width: 9223372036854775807px;\n  color: #0f0F0f;\n\x7d\n\n" := by
    rfl
  obtain ⟨text, tree, ht, hp, hs⟩ := parse_render "test.icss" hf hr
  cases hrender.symm.trans ht
  exact ⟨children, span, hf, hr, hrender, tree, hp, hs⟩

end Stylesheet
