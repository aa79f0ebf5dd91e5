import Stylesheet.Proofs.Climbing

/-! # Reading up to a limit

Reading an expression is a recursion over operators: while the next operator binds
tighter than the limit, it takes what has been read as its left operand, and what
is read up to its own power as its right one. By this recursion a run of operands
is read as a sum of products, as a product or as a single operand, depending on
the limit.
-/

namespace Stylesheet

open TokenReader

theorem Precedence.lt_iff_rank {p q : Precedence} : p < q ↔ p.rank < q.rank := Iff.rfl

section ReadWhile

variable {α : Type} {wanted tighter : TokenStream → Bool} {reader : TokenReader α}
  {advances : Advances reader}

theorem readWhile_split (h : ∀ stream, tighter stream = true → wanted stream = true)
    (stream : TokenStream) :
    readWhile wanted reader advances stream =
      (do
        let first ← readWhile tighter reader advances
        let later ← readWhile wanted reader advances
        return first ++ later : TokenReader (List α)) stream := by
  induction hn : stream.size using Nat.strongRecOn generalizing stream with
  | ind n ih =>
    subst hn
    by_cases ht : tighter stream = true
    · rw [readWhile_of_wanted (h stream ht), bind_congr_left (readWhile_of_wanted ht), bind_assoc]
      refine bind_congr_of_ok fun a between hr => ?_
      rw [bind_congr_left (ih _ (advances _ _ _ hr) between rfl)]
      simp only [bind_assoc, pure_bind, List.cons_append]
    · rw [bind_of_ok (readWhile_of_not (by simpa using ht))]
      simp only [List.nil_append, bind_pure]

end ReadWhile

/-- An operator takes its right operand from the tighter operators behind it, and what
comes out is the left operand of the next operator that is not tighter. -/
theorem Expr.group_cons_append {power : Precedence} {inner later : List Step}
    (hi : ∀ step ∈ inner, power < step.power) (hl : ∀ step ∈ later.head?, ¬ power < step.power)
    (operator : Operator) (left operand : Expr) :
    group [] left (⟨operator, power, operand⟩ :: (inner ++ later)) =
      group [] (join operator left (group [] operand inner)) later := by
  have hw : group [⟨left, operator, power⟩] operand inner =
      join operator left (group [] operand inner) := group_append_singleton hi [] operand
  cases later with
  | nil =>
    rw [List.append_nil]
    exact hw
  | cons step later =>
    have hs : ¬ power < step.power := hl step rfl
    have ht : ∀ s ∈ inner, ¬ s.power < step.power := by
      intro s hm
      have hp := hi s hm
      rw [Precedence.lt_iff_rank] at *
      omega
    change group [⟨left, operator, power⟩] operand (inner ++ step :: later) = _
    rw [group_append_cons (by simpa using hs) ht, hw]
    rfl

section Recursion

variable {grammar : Grammar} {limit : Precedence} {stream rest : TokenStream} {left : Expr}

/-- Read on behind an operand, as far as operators bind tighter than `limit`. -/
def readBehind (grammar : Grammar) (limit : Precedence) (left : Expr) : TokenReader Expr := do
  let steps ← readSteps grammar limit
  return Expr.group [] left steps

theorem readExpr_eq_readBehind (grammar : Grammar) (limit : Precedence) :
    readExpr grammar limit = readOperand grammar >>= readBehind grammar limit := rfl

theorem readStep_run (grammar : Grammar) (stream : TokenStream) :
    readStep grammar stream =
      (do
        let operator ← readOperator
        let operand ← readOperand grammar
        return ⟨operator, grammar.power stream.current.kind, operand⟩ : TokenReader Step)
        stream := by
  rw [readStep, bind_of_ok (current_run stream)]

theorem power_of_readStep {step : Step} (h : readStep grammar stream = .ok step rest) :
    step.power = grammar.power stream.current.kind := by
  rw [readStep_run] at h
  obtain ⟨operator, between, -, h⟩ := bind_eq_ok.mp h
  obtain ⟨operand, between', -, h⟩ := bind_eq_ok.mp h
  cases h
  rfl

theorem powers_of_readSteps {steps : List Step}
    (h : readSteps grammar limit stream = .ok steps rest) :
    (∀ step ∈ steps, limit < step.power) ∧ ¬ limit < grammar.power rest.current.kind := by
  induction steps generalizing stream with
  | nil =>
    obtain ⟨hw, rfl⟩ := readWhile_eq_ok_nil h
    exact ⟨by simp, of_decide_eq_false hw⟩
  | cons step steps ih =>
    obtain ⟨hw, between, hs, hl⟩ := readWhile_eq_ok_cons h
    obtain ⟨hp, hr⟩ := ih hl
    refine ⟨List.forall_mem_cons.mpr ⟨?_, hp⟩, hr⟩
    rw [power_of_readStep hs]
    exact of_decide_eq_true hw

theorem power_of_mem_head? {steps : List Step} {step : Step}
    (h : readSteps grammar limit stream = .ok steps rest) (hm : step ∈ steps.head?) :
    step.power = grammar.power stream.current.kind := by
  cases steps with
  | nil => cases hm
  | cons first later =>
    obtain rfl := Option.some.inj hm
    obtain ⟨-, between, hs, -⟩ := readWhile_eq_ok_cons h
    exact power_of_readStep hs

theorem readSteps_of_lt (h : limit < grammar.power stream.current.kind) :
    readSteps grammar limit stream =
      (do
        let step ← readStep grammar
        let steps ← readSteps grammar limit
        return step :: steps : TokenReader (List Step)) stream :=
  readWhile_of_wanted (decide_eq_true h)

theorem readSteps_split (grammar : Grammar) {power : Precedence} (h : limit < power)
    (stream : TokenStream) :
    readSteps grammar limit stream =
      (do
        let inner ← readSteps grammar power
        let later ← readSteps grammar limit
        return inner ++ later : TokenReader (List Step)) stream := by
  refine readWhile_split (fun s hs => ?_) stream
  rw [decide_eq_true_eq, Precedence.lt_iff_rank] at *
  omega

theorem readBehind_of_not (h : ¬ limit < grammar.power stream.current.kind) :
    readBehind grammar limit left stream = .ok left stream := by
  rw [readBehind, readSteps, bind_of_ok (readWhile_of_not (decide_eq_false h))]
  rfl

/-- An operator that binds tighter than the limit takes what has been read as its left
operand, reads its right operand up to its own power, and reading goes on with the
operation. -/
theorem readBehind_of_lt (h : limit < grammar.power stream.current.kind) :
    readBehind grammar limit left stream =
      (readOperation grammar left (grammar.power stream.current.kind) >>=
        readBehind grammar limit) stream := by
  rw [readBehind, bind_congr_left (readSteps_of_lt h), bind_assoc,
    bind_congr_left (readStep_run grammar stream)]
  simp only [readOperation, readExpr, readBehind, bind_assoc, pure_bind]
  refine bind_congr_of_ok fun operator s _ => bind_congr_of_ok fun operand between _ => ?_
  -- Behind the operand, the steps of the right operand come first.
  rw [bind_congr_left (readSteps_split grammar h between)]
  simp only [bind_assoc, pure_bind]
  refine bind_congr_of_ok fun inner behind hi => bind_congr_of_ok fun later rest hl => ?_
  obtain ⟨hinner, hstop⟩ := powers_of_readSteps hi
  rw [Expr.group_cons_append hinner fun step hm => power_of_mem_head? hl hm ▸ hstop]

end Recursion

/-- An operator and the operand behind it, with the tokens that they are read from. -/
structure Link where
  sign : Token
  token : Token
  operator : Operator
  operand : Expr
  sign_kind : sign.kind = operator.kind
  primary : Derives.Primary token operand

namespace Link

def isFactor (link : Link) : Bool := link.operator = .multiply

def tokens (links : List Link) : List Token := links.flatMap fun link => [link.sign, link.token]

/-- The product of an operand and the longest chain of factors behind it, grouped to
the left. -/
def product (operand : Expr) (links : List Link) : Expr :=
  (links.takeWhile isFactor).foldl (fun left factor =>
    .operation .multiply left factor.operand ⟨left.span.start, factor.operand.span.stop⟩) operand

def addends : List Link → List (Operator × Expr)
  | [] => []
  | link :: links =>
    if link.isFactor then addends links
    else (link.operator, product link.operand links) :: addends links

/-- The sum of the products of a run, grouped to the left. -/
def sum (operand : Expr) (links : List Link) : Expr :=
  (addends links).foldl (fun left addend =>
    .operation addend.1 left addend.2 ⟨left.span.start, addend.2.span.stop⟩) (product operand links)

variable {link : Link} {links : List Link}

theorem product_cons_of_factor (h : link.isFactor = true) (left : Expr) :
    product left (link :: links) = product (.join .multiply left link.operand) links := by
  rw [product, List.takeWhile_cons_of_pos h]
  rfl

theorem product_cons_of_not (h : link.isFactor = false) (left : Expr) :
    product left (link :: links) = left := by
  rw [product, List.takeWhile_cons_of_neg (by simp [h])]
  rfl

theorem sum_cons_of_factor (h : link.isFactor = true) (left : Expr) :
    sum left (link :: links) = sum (.join .multiply left link.operand) links := by
  rw [sum, product_cons_of_factor h, addends, if_pos h]
  rfl

theorem addends_dropWhile (links : List Link) :
    addends (links.dropWhile isFactor) = addends links := by
  induction links with
  | nil => rfl
  | cons link links ih =>
    by_cases h : link.isFactor = true
    · rw [List.dropWhile_cons_of_pos h, addends, if_pos h, ih]
    · rw [List.dropWhile_cons_of_neg h]

theorem product_dropWhile (left : Expr) (links : List Link) :
    product left (links.dropWhile isFactor) = left := by
  induction links with
  | nil => rfl
  | cons link links ih =>
    by_cases h : link.isFactor = true
    · rw [List.dropWhile_cons_of_pos h, ih]
    · rw [List.dropWhile_cons_of_neg h, product_cons_of_not (by simpa using h)]

theorem sum_cons_of_not (h : link.isFactor = false) (left : Expr) :
    sum left (link :: links) =
      sum (.join link.operator left (product link.operand links)) (links.dropWhile isFactor) := by
  rw [sum, product_cons_of_not h, addends, if_neg (by simp [h]), List.foldl_cons, sum,
    product_dropWhile, addends_dropWhile]
  rfl

end Link

section Links

variable {rest : TokenStream} {link : Link} {links : List Link} {limit : Precedence} {left : Expr}

theorem prepend_tokens_cons (link : Link) (links : List Link) (rest : TokenStream) :
    rest.prepend (Link.tokens (link :: links)) =
      ((rest.prepend (Link.tokens links)).cons link.token).cons link.sign := rfl

theorem Link.power_current (link : Link) (stream : TokenStream) :
    Grammar.standard.power (stream.cons link.sign).current.kind = link.operator.power := by
  rw [TokenStream.current_cons, link.sign_kind, Grammar.power_kind]

theorem Link.power_of_factor (h : link.isFactor = true) :
    link.operator.power = .multiplicative := by
  rw [of_decide_eq_true h]
  rfl

theorem Link.power_of_not (h : link.isFactor = false) : link.operator.power = .additive := by
  have hn : link.operator ≠ .multiply := of_decide_eq_false h
  cases ho : link.operator with
  | add => rfl
  | subtract => rfl
  | multiply => exact absurd ho hn

theorem TokenStream.EndsExpr.not_lt_power (h : rest.EndsExpr) (limit : Precedence) :
    ¬ limit < Grammar.standard.power rest.current.kind := by
  intro hl
  have hlowest : Precedence.lowest < Grammar.standard.power rest.current.kind := by
    rw [Precedence.lt_iff_rank] at *
    exact Nat.zero_lt_of_lt hl
  obtain ⟨operator, ho⟩ := lowest_lt_power_iff.mp hlowest
  exact h operator ho

theorem not_multiplicative_lt_power (kind : TokenKind) :
    ¬ Precedence.multiplicative < Grammar.standard.power kind := by
  cases kind <;> decide

theorem readExpr_of_tight {token : Token} {operand : Expr} (hp : Derives.Primary token operand)
    (hl : ¬ limit < .multiplicative) (stream : TokenStream) :
    readExpr .standard limit (stream.cons token) = .ok operand stream := by
  rw [readExpr_eq_readBehind, bind_of_ok (readOperand_cons hp stream)]
  apply readBehind_of_not
  have hm := not_multiplicative_lt_power stream.current.kind
  rw [Precedence.lt_iff_rank] at *
  omega

theorem readBehind_link {right : Expr} {stream : TokenStream} (hl : limit < link.operator.power)
    (h : readExpr .standard link.operator.power (stream.cons link.token) = .ok right rest) :
    readBehind .standard limit left ((stream.cons link.token).cons link.sign) =
      readBehind .standard limit (.join link.operator left right) rest := by
  have hp := link.power_current (stream.cons link.token)
  rw [readBehind_of_lt (by rwa [hp]), hp, readOperation, bind_assoc,
    bind_of_ok (readOperator_cons link.sign_kind _), bind_assoc, bind_of_ok h, pure_bind]

theorem readBehind_factor (h : link.isFactor = true) (hl : limit < .multiplicative)
    (stream : TokenStream) :
    readBehind .standard limit left ((stream.cons link.token).cons link.sign) =
      readBehind .standard limit (.join .multiply left link.operand) stream := by
  have ho : link.operator = .multiply := of_decide_eq_true h
  have hp := Link.power_of_factor h
  have hr : readExpr .standard link.operator.power (stream.cons link.token) =
      .ok link.operand stream := readExpr_of_tight link.primary (by rw [hp]; decide) stream
  rw [readBehind_link (by rwa [hp]) hr, ho]

theorem readBehind_additive (hr : rest.EndsExpr) (left : Expr) (links : List Link) :
    readBehind .standard .additive left (rest.prepend (Link.tokens links)) =
      .ok (Link.product left links)
        (rest.prepend (Link.tokens (links.dropWhile Link.isFactor))) := by
  induction links generalizing left with
  | nil => exact readBehind_of_not (hr.not_lt_power .additive)
  | cons link links ih =>
    cases h : link.isFactor with
    | true =>
      rw [prepend_tokens_cons, readBehind_factor h (by decide), ih, Link.product_cons_of_factor h,
        List.dropWhile_cons_of_pos h]
    | false =>
      rw [Link.product_cons_of_not h, List.dropWhile_cons_of_neg (by simp [h])]
      apply readBehind_of_not
      rw [prepend_tokens_cons, link.power_current, Link.power_of_not h]
      decide

theorem readExpr_additive {token : Token} {operand : Expr} (hp : Derives.Primary token operand)
    (hr : rest.EndsExpr) (links : List Link) :
    readExpr .standard .additive ((rest.prepend (Link.tokens links)).cons token) =
      .ok (Link.product operand links)
        (rest.prepend (Link.tokens (links.dropWhile Link.isFactor))) := by
  rw [readExpr_eq_readBehind, bind_of_ok (readOperand_cons hp _), readBehind_additive hr]

theorem readBehind_lowest (hr : rest.EndsExpr) (left : Expr) (links : List Link) :
    readBehind .standard .lowest left (rest.prepend (Link.tokens links)) =
      .ok (Link.sum left links) rest := by
  -- A sign takes several links at once, so the induction is on their number.
  induction hn : links.length using Nat.strongRecOn generalizing left links with
  | ind n ih =>
    subst hn
    cases links with
    | nil => exact readBehind_of_not (hr.not_lt_power .lowest)
    | cons link links =>
      cases h : link.isFactor with
      | true =>
        rw [prepend_tokens_cons, readBehind_factor h (by decide), Link.sum_cons_of_factor h]
        exact ih _ (by simp) _ links rfl
      | false =>
        have hp := Link.power_of_not h
        have hterm := readExpr_additive link.primary hr links
        have hlength := (List.dropWhile_sublist Link.isFactor (l := links)).length_le
        rw [prepend_tokens_cons, readBehind_link (by rw [hp]; decide) (by rwa [hp]),
          Link.sum_cons_of_not h]
        exact ih _ (Nat.lt_succ_of_le hlength) _ _ rfl

end Links

/-- Expressions are grouped by precedence up to every limit. Of a run of operands that
no operator follows, the lowest limit takes all as the sum of its products, the limit
of sums takes the first product, and the limits above take the first operand. Reading
stands before the first token that was not taken. -/
theorem readExpr_by_limit {token : Token} {operand : Expr} (hp : Derives.Primary token operand)
    (links : List Link) {rest : TokenStream} (hr : rest.EndsExpr) :
    readExpr .standard .lowest (rest.prepend (token :: Link.tokens links)) =
        .ok (Link.sum operand links) rest ∧
      readExpr .standard .additive (rest.prepend (token :: Link.tokens links)) =
        .ok (Link.product operand links)
          (rest.prepend (Link.tokens (links.dropWhile Link.isFactor))) ∧
      readExpr .standard .multiplicative (rest.prepend (token :: Link.tokens links)) =
        .ok operand (rest.prepend (Link.tokens links)) ∧
      readExpr .standard .primary (rest.prepend (token :: Link.tokens links)) =
        .ok operand (rest.prepend (Link.tokens links)) := by
  rw [TokenStream.prepend_cons]
  refine ⟨?_, readExpr_additive hp hr links, readExpr_of_tight hp (by decide) _,
    readExpr_of_tight hp (by decide) _⟩
  rw [readExpr_eq_readBehind, bind_of_ok (readOperand_cons hp _), readBehind_lowest hr]

theorem readExpr_by_limit_mixed :
    let name (text : String) : Token := ⟨.capitalName, text, .unknown⟩
    let star : Token := ⟨.star, "*", .unknown⟩
    let value (text : String) : Expr := .reference text .unknown
    let stop : TokenStream := ⟨[⟨.semicolon, ";", .unknown⟩], "EOF", .unknown⟩
    let later := [⟨.minus, "-", .unknown⟩, name "C", star, name "D", star, name "E",
      ⟨.plus, "+", .unknown⟩, name "F"]
    let stream := stop.prepend (name "A" :: star :: name "B" :: later)
    let first : Expr := .operation .multiply (value "A") (value "B") .unknown
    let second : Expr := .operation .multiply
      (.operation .multiply (value "C") (value "D") .unknown) (value "E") .unknown
    Derives.Primary (name "A") (value "A") ∧ stop.EndsExpr ∧
      readExpr .standard .lowest stream =
        .ok (.operation .add (.operation .subtract first second .unknown) (value "F") .unknown)
          stop ∧
      readExpr .standard .additive stream = .ok first (stop.prepend later) ∧
      readExpr .standard .primary stream =
        .ok (value "A") (stop.prepend (star :: name "B" :: later)) := by
  intro name star value stop later stream first second
  have hp (text : String) : Derives.Primary (name text) (value text) := .reference rfl
  have hr : stop.EndsExpr := by
    intro operator
    cases operator <;> decide
  obtain ⟨hl, ha, -, ht⟩ := readExpr_by_limit (hp "A")
    [⟨star, name "B", .multiply, value "B", rfl, hp "B"⟩,
      ⟨⟨.minus, "-", .unknown⟩, name "C", .subtract, value "C", rfl, hp "C"⟩,
      ⟨star, name "D", .multiply, value "D", rfl, hp "D"⟩,
      ⟨star, name "E", .multiply, value "E", rfl, hp "E"⟩,
      ⟨⟨.plus, "+", .unknown⟩, name "F", .add, value "F", rfl, hp "F"⟩] hr
  exact ⟨hp "A", hr, hl, ha, ht⟩

end Stylesheet
