import Stylesheet.Proofs.Derivation
import Stylesheet.Proofs.Descent

/-! # Precedence

A run of operands is grouped around the last of its weakest operators: what
stands before that operator is its left operand, and what stands behind it its
right one. So reading an expression accepts the sums of the grammar, as they
are derived.
-/

namespace Stylesheet

open TokenReader

namespace Expr

theorem settle_suffix (power : Precedence) (awaiting : List Awaiting) (right : Expr) :
    (settle power awaiting right).1 <:+ awaiting := by
  induction awaiting generalizing right with
  | nil => exact List.suffix_refl _
  | cons a outer ih =>
    rw [settle]
    split
    · exact List.suffix_refl _
    · exact (ih _).trans (List.suffix_cons a outer)

theorem settle_eq_nil {power : Precedence} {awaiting : List Awaiting}
    (h : ∀ a ∈ awaiting, ¬ a.power < power) (right : Expr) :
    settle power awaiting right = ([], group awaiting right []) := by
  induction awaiting generalizing right with
  | nil => rfl
  | cons a outer ih =>
    obtain ⟨ha, ho⟩ := List.forall_mem_cons.mp h
    rw [settle, if_neg ha, ih ho]
    rfl

theorem settle_append_singleton {power : Precedence} {weakest : Awaiting}
    (h : weakest.power < power) (awaiting : List Awaiting) (right : Expr) :
    settle power (awaiting ++ [weakest]) right =
      ((settle power awaiting right).1 ++ [weakest], (settle power awaiting right).2) := by
  induction awaiting generalizing right with
  | nil => exact if_pos h
  | cons a outer ih =>
    rw [List.cons_append, settle, settle]
    split
    · rfl
    · exact ih _

theorem group_cons (awaiting : List Awaiting) (operand : Expr) (step : Step) (steps : List Step) :
    group awaiting operand (step :: steps) =
      group (⟨(settle step.power awaiting operand).2, step.operator, step.power⟩ ::
        (settle step.power awaiting operand).1) step.operand steps := rfl

theorem group_append_cons {steps : List Step} {step : Step} {awaiting : List Awaiting}
    (ha : ∀ a ∈ awaiting, ¬ a.power < step.power) (hs : ∀ s ∈ steps, ¬ s.power < step.power)
    (operand : Expr) (later : List Step) :
    group awaiting operand (steps ++ step :: later) =
      group [⟨group awaiting operand steps, step.operator, step.power⟩] step.operand later := by
  induction steps generalizing awaiting operand with
  | nil => rw [List.nil_append, group_cons, settle_eq_nil ha]
  | cons s steps ih =>
    obtain ⟨h, hs⟩ := List.forall_mem_cons.mp hs
    rw [List.cons_append, group_cons, group_cons]
    refine ih (List.forall_mem_cons.mpr ⟨h, fun a hm => ha a ?_⟩) hs s.operand
    exact (settle_suffix s.power awaiting operand).subset hm

/-- An operator that is weaker than all behind it takes what they make of it. -/
theorem group_append_singleton {weakest : Awaiting} {steps : List Step}
    (h : ∀ s ∈ steps, weakest.power < s.power) (awaiting : List Awaiting) (operand : Expr) :
    group (awaiting ++ [weakest]) operand steps =
      join weakest.operator weakest.left (group awaiting operand steps) := by
  induction steps generalizing awaiting operand with
  | nil => simp [group]
  | cons s steps ih =>
    obtain ⟨hw, h⟩ := List.forall_mem_cons.mp h
    rw [group_cons, group_cons, settle_append_singleton hw]
    exact ih h (_ :: _) s.operand

/-- A run is grouped around the last of its weakest operators. -/
theorem group_split {before later : List Step} (step : Step)
    (hb : ∀ s ∈ before, ¬ s.power < step.power) (hl : ∀ s ∈ later, step.power < s.power)
    (operand : Expr) :
    group [] operand (before ++ step :: later) =
      join step.operator (group [] operand before) (group [] step.operand later) := by
  rw [group_append_cons (by simp) hb]
  exact group_append_singleton hl [] step.operand

end Expr

def Operator.power : Operator → Precedence
  | add => .additive
  | subtract => .additive
  | multiply => .multiplicative

namespace Number.Writes

theorem exists_last {written : List Char} {value : Number} (h : Writes written value) :
    ∃ front d, written = front ++ [d] ∧ d.isDigit = true := by
  have hd {digits : List Char} {n : Nat} (h : IsDecimal digits n) :
      ∃ front d, digits = front ++ [d] ∧ d.isDigit = true := by
    obtain ⟨hn, hd, -⟩ := h
    exact ⟨_, _, (List.dropLast_concat_getLast hn).symm, hd _ (List.getLast_mem hn)⟩
  cases h with
  | unsigned h => exact hd h
  | plus h | minus h =>
    obtain ⟨front, d, rfl, hlast⟩ := hd h
    exact ⟨_ :: front, d, rfl, hlast⟩

theorem not_suffix {written : List Char} {value : Number} (h : Writes written value)
    (dimension : Dimension) : dimension.suffix ≠ [] → ¬ dimension.suffix <:+ written := by
  obtain ⟨front, d, rfl, hd⟩ := h.exists_last
  rintro hn ⟨before, he⟩
  have hl := congrArg List.getLast? he
  cases dimension with
  | pixel =>
    obtain rfl : 'x' = d := by simpa [Dimension.suffix] using hl
    cases hd
  | percentage =>
    obtain rfl : '%' = d := by simpa [Dimension.suffix] using hl
    cases hd
  | scalar => exact hn rfl

end Number.Writes

namespace Token

variable {token : Token}

theorem operand_of_primary {e : Expr} (h : Derives.Primary token e) : token.operand = .ok e := by
  cases h with
  | color hk => simp [operand, hk]
  | yes hk => simp [operand, hk]
  | no hk => simp [operand, hk]
  | reference hk => simp [operand, hk]
  | @quantity dimension value written n hk ht hw =>
    have hv := Number.parse?_eq_some_iff.mpr hw
    rw [← Text.dropSuffixes_append_replicate (hw.not_suffix dimension) n, ← ht] at hv
    cases dimension <;> simp_all [operand, Dimension.kind, quantity]

theorem primary_of_quantity (dimension : Dimension) {e : Expr} (hk : token.kind = dimension.kind)
    (h : token.quantity dimension = .ok e) : Derives.Primary token e := by
  unfold quantity at h
  split at h
  · next value hv =>
    cases h
    obtain ⟨n, hn⟩ := Text.exists_dropSuffixes_append dimension.suffix token.text.toList
    exact .quantity hk hn (Number.parse?_eq_some_iff.mp hv)
  · cases h

theorem primary_of_operand {e : Expr} (h : token.operand = .ok e) : Derives.Primary token e := by
  unfold operand at h
  split at h
  · next hk => exact primary_of_quantity .pixel hk h
  · next hk => exact primary_of_quantity .percentage hk h
  · next hk => exact primary_of_quantity .scalar hk h
  · next hk => cases h; exact .color hk
  · next hk => cases h; exact .yes hk
  · next hk => cases h; exact .no hk
  · next hk => cases h; exact .reference hk
  · cases h

theorem isOperand_of_primary {e : Expr} (h : Derives.Primary token e) :
    Grammar.standard.isOperand token.kind = true := by
  cases h with
  | @quantity dimension _ _ _ hk => cases dimension <;> rw [hk] <;> rfl
  | _ hk => rw [hk]; rfl

theorem operator?_eq_some_iff {operator : Operator} :
    token.operator? = some operator ↔ token.kind = operator.kind := by
  unfold operator?
  cases operator <;> split <;> simp_all [Operator.kind]

end Token

theorem Grammar.power_kind (operator : Operator) :
    Grammar.standard.power operator.kind = operator.power := by
  cases operator <;> rfl

theorem Operator.not_power_lt_additive (operator : Operator) :
    ¬ operator.power < .additive := by
  cases operator <;> decide

/-- Operators and operands by turns, and the steps they are read as. -/
inductive Run : List Token → List Step → Prop where

  | nil : Run [] []

  | cons {sign token : Token} {operator : Operator} {operand : Expr} {tokens : List Token}
      {steps : List Step} : sign.kind = operator.kind → Derives.Primary token operand →
      Run tokens steps →
      Run (sign :: token :: tokens) (⟨operator, operator.power, operand⟩ :: steps)

namespace Run

variable {tokens later : List Token} {steps more : List Step}

theorem append (h : Run tokens steps) (hm : Run later more) :
    Run (tokens ++ later) (steps ++ more) := by
  induction h with
  | nil => exact hm
  | cons hs hp _ ih => exact .cons hs hp ih

theorem not_power_lt_additive (h : Run tokens steps) : ∀ s ∈ steps, ¬ s.power < .additive := by
  induction h with
  | nil => simp
  | @cons _ _ operator _ _ _ _ _ _ ih =>
    exact List.forall_mem_cons.mpr ⟨operator.not_power_lt_additive, ih⟩

end Run

namespace Derives

/-- A run of operands and the expression it is grouped to. -/
def Grouped (tokens : List Token) (e : Expr) : Prop :=
  ∃ token operand later steps, tokens = token :: later ∧ Primary token operand ∧
    Run later steps ∧ e = Expr.group [] operand steps

variable {tokens later : List Token} {e : Expr}

/-- A product is grouped from a run whose operators all bind equally. -/
theorem Product.run (h : Product tokens e) :
    ∃ token operand later steps, tokens = token :: later ∧ Primary token operand ∧
      Run later steps ∧ (∀ s ∈ steps, s.power = .multiplicative) ∧
      e = Expr.group [] operand steps := by
  induction h with
  | primary hp => exact ⟨_, _, [], [], rfl, hp, .nil, by simp, rfl⟩
  | @times _ sign token left right _ hs hr ih =>
    obtain ⟨first, operand, later, steps, rfl, hp, hrun, hm, rfl⟩ := ih
    have hlast : Run [sign, token] [⟨.multiply, .multiplicative, right⟩] :=
      .cons (hs : sign.kind = Operator.multiply.kind) hr .nil
    refine ⟨first, operand, later ++ [sign, token], _, rfl, hp, hrun.append hlast, ?_, ?_⟩
    · exact List.forall_mem_append.mpr ⟨hm, by simp⟩
    · rw [Expr.group_split]
      · rfl
      · intro s h
        exact hm s h ▸ Nat.lt_irrefl _
      · simp

theorem Grouped.join {left right : Expr} {operator : Operator} {sign : Token}
    (hl : Grouped tokens left) (ho : operator.power = .additive) (hs : sign.kind = operator.kind)
    (hr : Product later right) : Grouped (tokens ++ sign :: later)
      (.operation operator left right ⟨left.span.start, right.span.stop⟩) := by
  obtain ⟨first, operand, before, steps, rfl, hp, hrun, rfl⟩ := hl
  obtain ⟨token, operand', behind, more, rfl, hp', hrun', hm, rfl⟩ := hr.run
  refine ⟨first, operand, _, _, rfl, hp, hrun.append (.cons hs hp' hrun'), ?_⟩
  rw [Expr.group_split]
  · rfl
  · intro s h
    rw [ho]
    exact hrun.not_power_lt_additive s h
  · intro s h
    rw [hm s h]
    exact ho ▸ (by decide : Precedence.additive < .multiplicative)

theorem Sum.grouped (h : Sum tokens e) : Grouped tokens e := by
  induction h with
  | product h =>
    obtain ⟨token, operand, later, steps, ht, hp, hrun, -, he⟩ := h.run
    exact ⟨token, operand, later, steps, ht, hp, hrun, he⟩
  | plus _ hs hr ih => exact Grouped.join ih rfl hs hr
  | minus _ hs hr ih => exact Grouped.join ih rfl hs hr

theorem exists_sum_of_run {steps : List Step} {product : List Token} (hrun : Run later steps)
    (hp : Product product e) (before : List Token)
    (hb : ∀ {tokens e}, Product tokens e → ∃ sum, Sum (before ++ tokens) sum) :
    ∃ sum, Sum (before ++ (product ++ later)) sum := by
  induction hrun generalizing before product e with
  | nil => simpa using hb hp
  | @cons sign token operator operand tokens steps hs ho _ ih =>
    by_cases hm : operator = .multiply
    · subst hm
      simpa using ih (.times hp hs ho) before hb
    · -- A weaker sign ends the product, and the operand behind it starts the next one.
      have hnext : ∀ {tokens e}, Product tokens e →
          ∃ sum, Sum (before ++ product ++ [sign] ++ tokens) sum := by
        intro tokens e hq
        obtain ⟨sum, hsum⟩ := hb hp
        cases operator with
        | add => exact ⟨_, by simpa using Sum.plus hsum hs hq⟩
        | subtract => exact ⟨_, by simpa using Sum.minus hsum hs hq⟩
        | multiply => exact absurd rfl hm
      simpa using ih (.primary ho) _ hnext

theorem Primary.exists_sum {token : Token} {operand : Expr} {steps : List Step}
    (h : Primary token operand) (hrun : Run later steps) : ∃ sum, Sum (token :: later) sum :=
  exists_sum_of_run hrun (.primary h) [] fun hp => ⟨_, .product hp⟩

end Derives

def TokenStream.EndsExpr (stream : TokenStream) : Prop :=
  ∀ operator : Operator, stream.current.kind ≠ operator.kind

section Readers

variable {stream rest : TokenStream} {token sign : Token} {operand e : Expr} {operator : Operator}

theorem readOperand_cons (h : Derives.Primary token e) (rest : TokenStream) :
    readOperand .standard (rest.cons token) = .ok e rest := by
  rw [readOperand, bind_of_ok (current_run _), TokenStream.current_cons,
    if_pos (Token.isOperand_of_primary h), readPrimary, bind_of_ok (current_run _),
    TokenStream.current_cons, Token.operand_of_primary h]
  rfl

theorem primary_of_readOperand (h : readOperand .standard stream = .ok e rest) :
    ∃ token, Derives.Primary token e ∧ stream = rest.cons token := by
  rw [readOperand, bind_of_ok (current_run stream)] at h
  split at h
  · rw [readPrimary, bind_of_ok (current_run stream)] at h
    cases ho : stream.current.operand with
    | error cause =>
      rw [ho] at h
      cases h
    | ok e' =>
      have hn : stream.current.kind ≠ .endOfInput := fun hk => by simp [Token.operand, hk] at ho
      rw [ho] at h
      cases h
      exact ⟨_, Token.primary_of_operand ho, TokenStream.eq_cons hn⟩
  · cases h

theorem readOperator_cons (hs : sign.kind = operator.kind) (rest : TokenStream) :
    readOperator (rest.cons sign) = .ok operator rest := by
  rw [readOperator, bind_of_ok (advance_run sign rest), Token.operator?_eq_some_iff.mpr hs]
  rfl

theorem readStep_cons (hs : sign.kind = operator.kind) (hp : Derives.Primary token operand)
    (rest : TokenStream) :
    readStep .standard ((rest.cons token).cons sign) =
      .ok ⟨operator, operator.power, operand⟩ rest := by
  rw [readStep, bind_of_ok (current_run _), bind_of_ok (readOperator_cons hs _),
    bind_of_ok (readOperand_cons hp rest), TokenStream.current_cons, hs, Grammar.power_kind]
  rfl

theorem run_of_readStep {step : Step} (hs : sign.kind = operator.kind)
    (h : readStep .standard (stream.cons sign) = .ok step rest) :
    ∃ token operand, Derives.Primary token operand ∧
      step = ⟨operator, operator.power, operand⟩ ∧ stream = rest.cons token := by
  rw [readStep, bind_of_ok (current_run _), bind_of_ok (readOperator_cons hs _)] at h
  obtain ⟨operand, _, hp, h⟩ := bind_eq_ok.mp h
  obtain ⟨token, ht, rfl⟩ := primary_of_readOperand hp
  cases h
  rw [TokenStream.current_cons, hs, Grammar.power_kind]
  exact ⟨token, operand, ht, rfl, rfl⟩

theorem lowest_lt_power_iff {kind : TokenKind} :
    Precedence.lowest < Grammar.standard.power kind ↔
      ∃ operator : Operator, kind = operator.kind := by
  constructor
  · intro h
    cases kind with
    | plus => exact ⟨.add, rfl⟩
    | minus => exact ⟨.subtract, rfl⟩
    | star => exact ⟨.multiply, rfl⟩
    | _ => exact absurd h (by decide)
  · rintro ⟨operator, rfl⟩
    cases operator <;> decide

theorem readSteps_of_run {tokens : List Token} {steps : List Step} (h : Run tokens steps)
    (hr : rest.EndsExpr) :
    readSteps .standard .lowest (rest.prepend tokens) = .ok steps rest := by
  induction h with
  | nil =>
    refine readWhile_of_not (decide_eq_false fun hl => ?_)
    obtain ⟨operator, ho⟩ := lowest_lt_power_iff.mp hl
    exact hr operator ho
  | @cons sign token operator operand tokens steps hs hp _ ih =>
    have hw := lowest_lt_power_iff.mpr ⟨operator, hs⟩
    exact readWhile_cons (decide_eq_true hw) (readStep_cons hs hp (rest.prepend tokens)) ih

theorem run_of_readSteps {steps : List Step}
    (h : readSteps .standard .lowest stream = .ok steps rest) :
    rest.EndsExpr ∧ ∃ tokens, stream = rest.prepend tokens ∧ Run tokens steps := by
  have hs := readWhile_sound (R := Run) .nil ?_ h
  · refine ⟨fun operator ho => ?_, hs.2⟩
    exact of_decide_eq_false hs.1 (lowest_lt_power_iff.mpr ⟨operator, ho⟩)
  · intro stream step between hw hr
    obtain ⟨operator, ho⟩ := lowest_lt_power_iff.mp (of_decide_eq_true hw)
    have hn : stream.current.kind ≠ .endOfInput := by
      rw [ho]
      cases operator <;> decide
    rw [TokenStream.eq_cons hn] at hr ⊢
    obtain ⟨token, operand, hp, rfl, ht⟩ := run_of_readStep ho hr
    exact ⟨[stream.current, token], by rw [ht]; rfl, fun hrun => .cons ho hp hrun⟩

/-- Every sum of the grammar is read, up to where no operator follows. -/
theorem readExpr_of_sum {tokens : List Token} (h : Derives.Sum tokens e) (hr : rest.EndsExpr) :
    readExpr .standard .lowest (rest.prepend tokens) = .ok e rest := by
  obtain ⟨token, operand, later, steps, rfl, hp, hrun, rfl⟩ := h.grouped
  rw [readExpr, TokenStream.prepend_cons, bind_of_ok (readOperand_cons hp _),
    bind_of_ok (readSteps_of_run hrun hr)]
  rfl

/-- What is read is a sum of the grammar. -/
theorem sum_of_readExpr (h : readExpr .standard .lowest stream = .ok e rest) :
    rest.EndsExpr ∧ ∃ tokens, stream = rest.prepend tokens ∧ Derives.Sum tokens e := by
  obtain ⟨operand, _, ho, hs⟩ := bind_eq_ok.mp h
  obtain ⟨steps, _, hs, he⟩ := bind_eq_ok.mp hs
  cases he
  obtain ⟨token, hp, rfl⟩ := primary_of_readOperand ho
  obtain ⟨hend, tokens, rfl, hrun⟩ := run_of_readSteps hs
  -- The tokens derive some sum, and reading them can only give that one.
  obtain ⟨sum, hsum⟩ := hp.exists_sum hrun
  have hread := readExpr_of_sum hsum hend
  rw [TokenStream.prepend_cons, h] at hread
  cases hread
  exact ⟨hend, token :: tokens, rfl, hsum⟩

end Readers

end Stylesheet
