import Stylesheet.Proofs.Acceptance
import Stylesheet.Proofs.RoundTrip
import Stylesheet.Proofs.Settled

/-! # Compiling a compiled style sheet

A style sheet that comes out of a compilation is a source itself. It is read as
the rules it was printed from: their selectors and colors are lexemes of the
first source. These rules are well formed, evaluation leaves them as they are,
and so the style sheet is printed again.
-/

namespace Stylesheet

open Lexicon

def Literal.Lexed : Literal → Prop
  | color text => Spelled .color text.toList
  | _ => True

inductive Expr.Lexed : Expr → Prop where
  | literal {value : Literal} (span : Span) : value.Lexed → Lexed (literal value span)
  | reference (name : String) (span : Span) : Lexed (reference name span)
  | operation {left right : Expr} (operator : Operator) (span : Span) : Lexed left → Lexed right →
      Lexed (operation operator left right span)

/-- All selectors and colors in a list of items are spelled as such. -/
inductive LexedItems : List Node → Prop where

  | nil : LexedItems []

  | binding {name : String} {value : Expr} {span : Span} {items : List Node} : value.Lexed →
      LexedItems items → LexedItems (.binding name value span :: items)

  | declaration {property : String} {value : Expr} {span : Span} {items : List Node} :
      value.Lexed → LexedItems items → LexedItems (.declaration property value span :: items)

  | rule {selectors : List Selector} {body : List Node} {span : Span} {items : List Node} :
      selectors ≠ [] →
      (∀ selector ∈ selectors, ∃ kind ∈ selectorKinds, Spelled kind selector.text.toList) →
      LexedItems body → LexedItems items → LexedItems (.rule selectors body span :: items)

  | conditional {condition : Expr} {body : List Node} {otherwise : Option (Block Node)}
      {span : Span} {items : List Node} : LexedItems body →
      (∀ branch, otherwise = some branch → LexedItems branch.items) → LexedItems items →
      LexedItems (.conditional condition body otherwise span :: items)

/-- The tokens that are selectors or colors are spelled as such. -/
def LexedTokens (tokens : List Token) : Prop :=
  ∀ token ∈ tokens, token.kind ∈ selectorKinds → Spelled token.kind token.text.toList

theorem LexedTokens.mono {tokens part : List Token} (h : LexedTokens tokens)
    (hp : ∀ token ∈ part, token ∈ tokens) : LexedTokens part :=
  fun token hm => h token (hp token hm)

theorem Token.IsSelector.lexed {token : Token} (h : token.IsSelector) (ht : LexedTokens [token]) :
    ∃ kind ∈ selectorKinds, Spelled kind token.text.toList := by
  have hk : token.kind ∈ selectorKinds := by simpa [Token.IsSelector, selectorKinds] using h
  exact ⟨token.kind, hk, ht token (by simp) hk⟩

namespace Derives

variable {tokens : List Token} {e : Expr}

theorem Primary.lexed {token : Token} (h : Primary token e) (ht : LexedTokens [token]) :
    e.Lexed := by
  cases h with
  | color hk =>
    have hs := ht token (by simp) (by simp [hk, selectorKinds])
    rw [hk] at hs
    exact .literal _ hs
  | yes | no | quantity => exact .literal _ trivial
  | reference => exact .reference ..

theorem Product.lexed (h : Product tokens e) (ht : LexedTokens tokens) : e.Lexed := by
  induction h with
  | primary h => exact h.lexed ht
  | times _ _ h ih =>
    exact .operation _ _ (ih (ht.mono (by simp +contextual))) (h.lexed (ht.mono (by simp)))

theorem Sum.lexed (h : Sum tokens e) (ht : LexedTokens tokens) : e.Lexed := by
  induction h with
  | product h => exact h.lexed ht
  | plus _ _ h ih | minus _ _ h ih =>
    exact .operation _ _ (ih (ht.mono (by simp +contextual)))
      (h.lexed (ht.mono (by simp +contextual)))

theorem MoreSelectors.lexed {selectors : List Selector} (h : MoreSelectors tokens selectors)
    (ht : LexedTokens tokens) :
    ∀ selector ∈ selectors, ∃ kind ∈ selectorKinds, Spelled kind selector.text.toList := by
  induction h with
  | nil => simp
  | cons _ hs _ ih =>
    exact List.forall_mem_cons.mpr ⟨hs.lexed (ht.mono (by simp)),
      ih (ht.mono (by simp +contextual))⟩

theorem Items.lexed {items : List Node} (h : Items tokens items) (ht : LexedTokens tokens) :
    LexedItems items := by
  induction h with
  | nil => exact .nil
  | binding _ _ hs _ _ ih =>
    exact .binding (hs.lexed (ht.mono (by simp +contextual)))
      (ih (ht.mono (by simp +contextual)))
  | declaration _ _ hs _ _ ih =>
    exact .declaration (hs.lexed (ht.mono (by simp +contextual)))
      (ih (ht.mono (by simp +contextual)))
  | rule hf hs _ _ _ _ ihb ih =>
    refine .rule (by simp) (List.forall_mem_cons.mpr ⟨hf.lexed (ht.mono (by simp)),
      hs.lexed (ht.mono (by simp +contextual))⟩) (ihb (ht.mono (by simp +contextual)))
      (ih (ht.mono (by simp +contextual)))
  | conditional _ _ _ _ _ _ _ _ ihb ih =>
    exact .conditional (ihb (ht.mono (by simp +contextual))) (by simp)
      (ih (ht.mono (by simp +contextual)))
  | alternative _ _ _ _ _ _ _ _ _ _ _ _ ihb ihb' ih =>
    refine .conditional (ihb (ht.mono (by simp +contextual))) (fun branch hb => ?_)
      (ih (ht.mono (by simp +contextual)))
    cases hb
    exact ihb' (ht.mono (by simp +contextual))

end Derives

theorem lexedItems_of_parse {file source : String} {root : Node}
    (h : parse file source = .ok root) :
    ∃ children span, root = .document children span ∧ LexedItems children := by
  unfold parse at h
  cases ht : tokenize file source with
  | error fault =>
    rw [ht] at h
    cases h
  | ok tokens =>
    rw [ht] at h
    have hl : LexedTokens tokens := fun token hm hk => spelled_of_mem_tokenize ht hm hk
    cases derives_of_parseTokens h with
    | closed htokens _ _ hi =>
      exact ⟨_, _, rfl, hi.lexed (hl.mono (by simp +contextual [htokens]))⟩
    | unclosed _ _ hi => exact ⟨_, _, rfl, hi.lexed hl⟩
    | empty _ => exact ⟨_, _, rfl, .nil⟩

def Env.Lexed (env : Env Literal) : Prop := ∀ name value, env name = some value → value.Lexed

section Evaluating

variable {env : Env Literal}

theorem Operator.lexed_of_fold? {operator : Operator} {left right value : Literal}
    (h : operator.fold? left right = some value) : value.Lexed := by
  cases fold?_eq_some_iff.mp h <;> trivial

theorem Expr.Lexed.valueIn {e : Expr} (h : e.Lexed) (he : env.Lexed) {value : Literal}
    (hv : e.valueIn env = some value) : value.Lexed := by
  cases h with
  | literal _ hl =>
    cases hv
    exact hl
  | reference name _ => exact he name value hv
  | operation operator _ _ _ =>
    obtain ⟨l, _, hv⟩ := Option.bind_eq_some_iff.mp hv
    obtain ⟨r, _, hv⟩ := Option.bind_eq_some_iff.mp hv
    exact Operator.lexed_of_fold? hv

theorem Env.Lexed.behind (he : env.Lexed) {name : String} {value : Expr} (h : value.Lexed)
    (span : Span) : (env.behind (.binding name value span)).Lexed := by
  intro other v ho
  cases hv : value.valueIn env with
  | none =>
    simp only [Env.behind, hv] at ho
    exact he other v ho
  | some literal =>
    simp only [Env.behind, hv, Function.update_apply] at ho
    split_ifs at ho
    · cases ho
      exact h.valueIn he hv
    · exact he other v ho

theorem Lexical.item_conditional (env : Env Literal) (condition : Expr) (body : List Node)
    (otherwise : Option (Block Node)) (span : Span) :
    item env (.conditional condition body otherwise span) = [] ∨
      item env (.conditional condition body otherwise span) = Lexical.body env body ∨
      ∃ branch, otherwise = some branch ∧
        item env (.conditional condition body otherwise span) = Lexical.body env branch.items := by
  unfold item
  split
  · exact .inr (.inl rfl)
  · cases otherwise with
    | none => exact .inl rfl
    | some branch => exact .inr (.inr ⟨branch, rfl, rfl⟩)
  · exact .inl rfl

theorem Css.printed?_declaration (property : String) (value : Expr) (span : Span) :
    printed? (.declaration property value span) = value.literal?.map (property, ·) := by
  cases value <;> rfl

/-- The values that the items of a block are printed with are lexed. -/
theorem LexedItems.body {items : List Node} (h : LexedItems items) (he : env.Lexed) :
    ∀ declaration ∈ (Lexical.body env items).filterMap Css.printed?, declaration.2.Lexed := by
  induction h generalizing env with
  | nil => simp [Lexical.body]
  | binding hv _ ih =>
    rw [Lexical.body]
    exact ih (he.behind hv _)
  | @declaration property value span items hv _ ih =>
    rw [Lexical.body, List.filterMap_append, List.forall_mem_append]
    refine ⟨fun declaration hm => ?_, ih he⟩
    unfold Lexical.item at hm
    obtain ⟨node, hn, hp⟩ := List.mem_filterMap.mp hm
    rw [List.mem_singleton.mp hn, Css.printed?_declaration, Expr.literal?_foldedIn] at hp
    obtain ⟨v, hv', rfl⟩ := Option.map_eq_some_iff.mp hp
    exact hv.valueIn he hv'
  | rule _ _ _ _ _ ih =>
    rw [Lexical.body]
    exact ih he
  | @conditional condition body otherwise span items _ _ _ ihb iho ih =>
    rw [Lexical.body, List.filterMap_append, List.forall_mem_append]
    refine ⟨?_, ih he⟩
    rcases Lexical.item_conditional env condition body otherwise span with hi | hi | ⟨b, hb, hi⟩
    · simp [hi]
    · rw [hi]
      exact ihb he
    · rw [hi]
      exact iho b hb he

theorem LexedItems.children {nodes : List Node} (h : LexedItems nodes) (he : env.Lexed) :
    ∀ block ∈ (Lexical.children env nodes).flatMap Css.blocksOf, block.selectors ≠ [] ∧
      (∀ text ∈ block.selectors, ∃ kind ∈ selectorKinds, Spelled kind text.toList) ∧
      ∀ declaration ∈ block.declarations, declaration.2.Lexed := by
  induction h generalizing env with
  | nil => simp [Lexical.children]
  | binding hv _ ih => exact ih (he.behind hv _)
  | declaration _ _ ih => exact ih he
  | rule hn hs hb _ _ ih =>
    rw [Lexical.children, List.flatMap_cons, List.forall_mem_append]
    refine ⟨List.forall_mem_singleton.mpr ⟨by simpa using hn, ?_, hb.body he⟩, ih he⟩
    simpa using hs
  | conditional _ _ _ _ _ ih => exact ih he

end Evaluating

/-- A text holds a negative number: a minus sign between a blank and a digit. -/
def HoldsNegative (text : String) : Prop :=
  ∃ digit, digit.isDigit = true ∧ [' ', '-', digit] <:+: text.toList

theorem isProperty_of_propertyTypes? {property : String} {types : List ValueType}
    (h : propertyTypes? property = some types) : IsProperty property := by
  unfold propertyTypes? at h
  split at h
  · exact ⟨'b', "ackground-color".toList, rfl, rfl, List.all_eq_true.mp rfl, rfl⟩
  · exact ⟨'c', "olor".toList, rfl, rfl, List.all_eq_true.mp rfl, rfl⟩
  · exact ⟨'w', "idth".toList, rfl, rfl, List.all_eq_true.mp rfl, rfl⟩
  · exact ⟨'h', "eight".toList, rfl, rfl, List.all_eq_true.mp rfl, rfl⟩
  · cases h

theorem not_conforms_boolean (property : String) (b : Bool) :
    ¬ Conforms property (.boolean b) := by
  rintro ⟨types, ht, hm⟩
  unfold propertyTypes? at ht
  split at ht <;> cases ht <;> simp [Literal.type] at hm

theorem infix_join {text : String} {texts : List String} (h : text ∈ texts) :
    text.toList <:+: (String.join texts).toList := by
  rw [String.toList_join, List.flatMap]
  exact List.infix_of_mem_flatten (List.mem_map_of_mem h)

theorem holdsNegative_of_mem {blocks : List Css.Block} {block : Css.Block} (hb : block ∈ blocks)
    {property : String} {value : Number} {dimension : Dimension}
    (hd : (property, .quantity value dimension) ∈ block.declarations) (hv : value.toInt < 0) :
    HoldsNegative (String.join (blocks.map Css.Block.text)) := by
  obtain ⟨digit, digits, hdigits⟩ : ∃ digit digits,
      Nat.toDigits 10 value.toInt.natAbs = digit :: digits :=
    List.exists_cons_of_ne_nil Nat.toDigits_ne_nil
  have hmem : digit ∈ Nat.toDigits 10 value.toInt.natAbs := by simp [hdigits]
  have hline : [' ', '-', digit] <:+: (Css.line (property, .quantity value dimension)).toList := by
    refine ⟨' ' :: ' ' :: property.toList ++ [':'], digits ++ dimension.suffix ++ [';', '\n'], ?_⟩
    simp [Css.line, Literal.render, Number.render, hv, hdigits]
  have hlines := infix_join (List.mem_map_of_mem (f := Css.line) hd)
  have hblock : (String.join (block.declarations.map Css.line)).toList <:+: block.text.toList := by
    rw [Css.Block.text, String.toList_append, String.toList_append]
    exact List.infix_append ..
  have htext := infix_join (List.mem_map_of_mem (f := Css.Block.text) hb)
  refine ⟨digit, Nat.isDigit_of_mem_toDigits (by decide) (by decide) hmem, ?_⟩
  exact ((hline.trans hlines).trans hblock).trans htext

/-- A lexed literal that a property takes can be read back unless it is negative. -/
theorem Literal.Lexed.readable {property : String} {value : Literal} (h : value.Lexed)
    (hc : Conforms property value)
    (hn : ∀ number dimension, value = .quantity number dimension → 0 ≤ number.toInt) :
    value.Readable := by
  cases value with
  | color text =>
    obtain ⟨digits, ht, hd⟩ := spelled_color_iff.mp h
    exact ⟨digits, by rw [← ht, String.ofList_toList], hd⟩
  | quantity number dimension => exact hn number dimension rfl
  | boolean b => exact absurd hc (not_conforms_boolean property b)

section Folded

variable {children : List Node}

theorem wellFormedBody_of_folded {kind : BlockKind} {types : Env ValueType} {items : List Node}
    (hf : ∀ item ∈ items, item.FoldedItem)
    (hc : ∀ declaration ∈ items.filterMap Css.printed?, Conforms declaration.1 declaration.2) :
    WellFormedBody kind types items := by
  induction items with
  | nil => exact .nil
  | cons item items ih =>
    obtain ⟨⟨⟩, hfs⟩ := List.forall_mem_cons.mp hf
    obtain ⟨⟨allowed, ha, hm⟩, hcs⟩ := List.forall_mem_cons.mp hc
    exact .declaration _ (.literal _ _) ha hm (ih hfs hcs)

theorem wellFormedChildren_of_folded {types : Env ValueType}
    (hf : ∀ child ∈ children, child.FoldedRule)
    (hc : ∀ block ∈ children.flatMap Css.blocksOf, ∀ declaration ∈ block.declarations,
      Conforms declaration.1 declaration.2) : WellFormedChildren types children := by
  induction children with
  | nil => exact .nil
  | cons child children ih =>
    obtain ⟨⟨hb⟩, hfs⟩ := List.forall_mem_cons.mp hf
    obtain ⟨hd, hcs⟩ := List.forall_mem_cons.mp hc
    exact .rule _ _ (wellFormedBody_of_folded hb hd) (ih hfs hcs)

theorem Node.FoldedRule.settledRule {child : Node} (h : child.FoldedRule) : child.SettledRule := by
  obtain ⟨hb⟩ := h
  refine .rule fun item hm => ?_
  obtain ⟨⟩ := hb item hm
  exact .folded

end Folded

/-- A text that is read as folded rules with conforming declarations is compiled
to the blocks of these rules. -/
theorem compile_of_folded {file text : String} {children : List Node} {span : Span}
    (hp : parse file text = .ok (.document children span))
    (hf : ∀ child ∈ children, child.FoldedRule)
    (hc : ∀ block ∈ children.flatMap Css.blocksOf, ∀ declaration ∈ block.declarations,
      Conforms declaration.1 declaration.2) :
    (compile file text).1 =
      .ok (String.join ((children.flatMap Css.blocksOf).map Css.Block.text)) := by
  have hcheck := (check_document_eq_nil_iff children span).mpr (wellFormedChildren_of_folded hf hc)
  obtain ⟨count, hcompile⟩ := compile_of_accepted hp hcheck
  have hr := readOff_document children span
  rw [Lexical.children_of_settled fun child hm => (hf child hm).settledRule] at hr
  rw [hcompile, hr.produce_eq]
  rfl

/-- What lexed items are printed as can be read back if their declarations conform
and none of them is negative. -/
theorem LexedItems.readable {children : List Node} (h : LexedItems children)
    (hc : ∀ block ∈ (Lexical.children Env.empty children).flatMap Css.blocksOf,
      ∀ declaration ∈ block.declarations, Conforms declaration.1 declaration.2)
    (hn : ¬ HoldsNegative (String.join
      (((Lexical.children Env.empty children).flatMap Css.blocksOf).map Css.Block.text))) :
    ∀ block ∈ (Lexical.children Env.empty children).flatMap Css.blocksOf, block.Readable := by
  intro block hm
  have he : Env.Lexed Env.empty := fun _ _ he => by cases he
  obtain ⟨hselectors, hspelled, hlexed⟩ := h.children he block hm
  refine ⟨hselectors, fun text ht => ?_, fun declaration hd => ?_, fun declaration hd => ?_⟩
  · obtain ⟨kind, hk, hs⟩ := hspelled text ht
    exact ⟨kind, hk, Lexeme.whole_of_spelled hs⟩
  · obtain ⟨types, ht, -⟩ := hc block hm declaration hd
    exact isProperty_of_propertyTypes? ht
  · refine (hlexed declaration hd).readable (hc block hm declaration hd) ?_
    obtain ⟨property, value⟩ := declaration
    rintro number dimension rfl
    by_contra hv
    exact hn (holdsNegative_of_mem hm hd (by omega))

/-- A compiled style sheet is compiled to itself, under any name, provided that
every binding had a value and that no number in it is negative. -/
theorem compile_idempotent {file source css : String} {log : List Event}
    (h : compile file source = (.ok css, log)) (hb : ∀ name, .unfoldedBinding name ∉ log)
    (hn : ¬ HoldsNegative css) (other : String) : (compile other css).1 = .ok css := by
  obtain ⟨root, hp, hcheck⟩ := accepted_of_compile (congrArg Prod.fst h)
  obtain ⟨count, hcompile⟩ := compile_of_accepted hp hcheck
  obtain ⟨children, span, rfl, hl⟩ := lexedItems_of_parse hp
  have hr := readOff_document children span
  rw [hcompile, hr.produce_eq] at h
  obtain ⟨hcss, rfl⟩ := Prod.mk.inj h
  obtain rfl := Except.ok.inj hcss
  have hc : ∀ block ∈ (Lexical.children Env.empty children).flatMap Css.blocksOf,
      ∀ declaration ∈ block.declarations, Conforms declaration.1 declaration.2 := by
    intro block hm declaration hd
    refine (wellFormed_of_check hcheck).course_conforms (fun name he => hb name ?_) declaration ?_
    · exact List.mem_cons_of_mem _ (List.mem_cons_of_mem _ (List.mem_append_left _ he))
    · rw [← hr.printed_eq]
      exact List.mem_flatMap.mpr ⟨block, hm, hd⟩
  obtain ⟨rules, place, hparse, hf, hblocks⟩ := Css.parse_blocks other (hl.readable hc hn)
  have hagain := compile_of_folded hparse hf (by rwa [hblocks])
  rwa [hblocks] at hagain

theorem compile_idempotent_shadowed :
    compile "test.icss"
        "W := 9px; p, .a-1 \x7b W := W - 2px; width: W; background-color: #Ff00aA; \x7d" =
      (.ok "p,\n.a-1 \x7b\n  width: 7px;\n  background-color: #Ff00aA;\n\x7d\n\n",
        [.tokenized 24, .checked 0]) ∧
    (compile "test.css"
        "p,\n.a-1 \x7b\n  width: 7px;\n  background-color: #Ff00aA;\n\x7d\n\n").1 =
      .ok "p,\n.a-1 \x7b\n  width: 7px;\n  background-color: #Ff00aA;\n\x7d\n\n" := by
  have h : compile "test.icss"
      "W := 9px; p, .a-1 \x7b W := W - 2px; width: W; background-color: #Ff00aA; \x7d" =
      (.ok "p,\n.a-1 \x7b\n  width: 7px;\n  background-color: #Ff00aA;\n\x7d\n\n",
        [.tokenized 24, .checked 0]) :=
    Prod.ext (mem_toOption.mp (by decide +kernel)) (by decide +kernel)
  have hn : ¬ [' ', '-'] <:+:
      "p,\n.a-1 \x7b\n  width: 7px;\n  background-color: #Ff00aA;\n\x7d\n\n".toList := by
    decide +kernel
  refine ⟨h, compile_idempotent h (by simp) ?_ "test.css"⟩
  rintro ⟨digit, -, hd⟩
  exact hn ((List.prefix_append [' ', '-'] [digit]).isInfix.trans hd)

end Stylesheet
