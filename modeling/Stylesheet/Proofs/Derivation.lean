import Stylesheet.Grammar.Document

/-! # What tokens derive

The grammar as a relation between lists of tokens and the trees they derive.
Products bind tighter than sums, and both group to the left. A node spans from
the first of its tokens to the last.
-/

namespace Stylesheet

def Dimension.kind : Dimension → TokenKind
  | pixel => .pixel
  | percentage => .percentage
  | scalar => .scalar

def Operator.kind : Operator → TokenKind
  | add => .plus
  | subtract => .minus
  | multiply => .star

namespace Token

def IsSelector (token : Token) : Prop :=
  token.kind = .classSelector ∨ token.kind = .idSelector ∨ token.kind = .color ∨
    token.kind = .lowerName

def selector (token : Token) : Selector := ⟨token.text, token.span⟩

end Token

namespace Derives

/-- A token that is an expression on its own. -/
inductive Primary (token : Token) : Expr → Prop where

  | color : token.kind = .color → Primary token (.literal (.color token.text) token.span)

  | yes : token.kind = .trueWord → Primary token (.literal (.boolean true) token.span)

  | no : token.kind = .falseWord → Primary token (.literal (.boolean false) token.span)

  | reference : token.kind = .capitalName → Primary token (.reference token.text token.span)

  -- Tokens of this kind that were not read from a source may repeat the suffix.
  | quantity {dimension : Dimension} {value : Number} {written : List Char} {n : Nat} :
      token.kind = dimension.kind →
      token.text.toList = written ++ (List.replicate n dimension.suffix).flatten →
      Number.Writes written value → Primary token (.literal (.quantity value dimension) token.span)

inductive Product : List Token → Expr → Prop where

  | primary {token : Token} {e : Expr} : Primary token e → Product [token] e

  | times {tokens : List Token} {sign token : Token} {left right : Expr} :
      Product tokens left → sign.kind = .star → Primary token right →
      Product (tokens ++ [sign, token])
        (.operation .multiply left right ⟨left.span.start, right.span.stop⟩)

/-- An expression: products joined by plus and minus signs. -/
inductive Sum : List Token → Expr → Prop where

  | product {tokens : List Token} {e : Expr} : Product tokens e → Sum tokens e

  | plus {tokens later : List Token} {sign : Token} {left right : Expr} :
      Sum tokens left → sign.kind = .plus → Product later right →
      Sum (tokens ++ sign :: later)
        (.operation .add left right ⟨left.span.start, right.span.stop⟩)

  | minus {tokens later : List Token} {sign : Token} {left right : Expr} :
      Sum tokens left → sign.kind = .minus → Product later right →
      Sum (tokens ++ sign :: later)
        (.operation .subtract left right ⟨left.span.start, right.span.stop⟩)

inductive MoreSelectors : List Token → List Selector → Prop where

  | nil : MoreSelectors [] []

  | cons {comma token : Token} {tokens : List Token} {selectors : List Selector} :
      comma.kind = .comma → token.IsSelector → MoreSelectors tokens selectors →
      MoreSelectors (comma :: token :: tokens) (token.selector :: selectors)

/-- Items one after the other, each with the items behind it. -/
inductive Items : List Token → List Node → Prop where

  | nil : Items [] []

  | binding {name assign stop : Token} {tokens later : List Token} {value : Expr}
      {items : List Node} : name.kind = .capitalName → assign.kind = .assign →
      Sum tokens value → stop.kind = .semicolon → Items later items →
      Items (name :: assign :: tokens ++ stop :: later)
        (.binding name.text value ⟨name.span.start, stop.span.stop⟩ :: items)

  | declaration {property colon stop : Token} {tokens later : List Token} {value : Expr}
      {items : List Node} : property.kind = .lowerName → colon.kind = .colon →
      Sum tokens value → stop.kind = .semicolon → Items later items →
      Items (property :: colon :: tokens ++ stop :: later)
        (.declaration property.text value ⟨property.span.start, stop.span.stop⟩ :: items)

  | rule {first opening closing : Token} {tokens inner later : List Token}
      {selectors : List Selector} {body items : List Node} : first.IsSelector →
      MoreSelectors tokens selectors → opening.kind = .openBrace → Items inner body →
      closing.kind = .closeBrace → Items later items →
      Items (first :: tokens ++ opening :: inner ++ closing :: later)
        (.rule (first.selector :: selectors) body ⟨first.span.start, closing.span.stop⟩ :: items)

  | conditional {word left right opening closing : Token} {tokens inner later : List Token}
      {condition : Expr} {body items : List Node} : word.kind = .ifWord →
      left.kind = .openBracket → Sum tokens condition → right.kind = .closeBracket →
      opening.kind = .openBrace → Items inner body → closing.kind = .closeBrace →
      Items later items →
      Items (word :: left :: tokens ++ right :: opening :: inner ++ closing :: later)
        (.conditional condition body none ⟨word.span.start, closing.span.stop⟩ :: items)

  | alternative {word left right opening closing otherwise opening' closing' : Token}
      {tokens inner inner' later : List Token} {condition : Expr} {body body' items : List Node} :
      word.kind = .ifWord → left.kind = .openBracket → Sum tokens condition →
      right.kind = .closeBracket → opening.kind = .openBrace → Items inner body →
      closing.kind = .closeBrace → otherwise.kind = .elseWord → opening'.kind = .openBrace →
      Items inner' body' → closing'.kind = .closeBrace → Items later items →
      Items (word :: left :: tokens ++ right :: opening :: inner ++
          closing :: otherwise :: opening' :: inner' ++ closing' :: later)
        (.conditional condition body
          (some ⟨body', ⟨otherwise.span.start, closing'.span.stop⟩⟩)
          ⟨word.span.start, closing'.span.stop⟩ :: items)

/-- A document is the items before the first closing token, or before the end of
the list. It ends at the closing token, or behind the last token. -/
inductive Document (file : String) (tokens : List Token) : Node → Prop where

  | closed {before rest : List Token} {ending : Token} {children : List Node} :
      tokens = before ++ ending :: rest → (∀ token ∈ before, token.kind ≠ .endOfInput) →
      ending.kind = .endOfInput → Items before children →
      Document file tokens (.document children ⟨⟨0, file⟩, ending.span.start⟩)

  | unclosed {last : Token} {children : List Node} :
      (∀ token ∈ tokens, token.kind ≠ .endOfInput) → tokens.getLast? = some last →
      Items tokens children → Document file tokens (.document children ⟨⟨0, file⟩, last.span.stop⟩)

  | empty : tokens = [] → Document file tokens (.document [] ⟨⟨0, file⟩, ⟨0, file⟩⟩)

end Derives

end Stylesheet
