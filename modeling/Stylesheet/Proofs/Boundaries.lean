import Stylesheet.Proofs.Lexemes

/-! # Where lexemes end

A lexeme is decided by its own characters and by those that could continue it.
It is read the same when the text is cut anywhere behind it. The lexeme of a
token is also read the same when layout is put anywhere behind it, since no
token holds a character that layout starts with.
-/

namespace Stylesheet

open Text

namespace Pattern

section Cuts

variable {mark cs text rest rest' : List Char}

@[simp] theorem cutThrough?_nil (cs : List Char) : cutThrough? [] cs = some ([], cs) := by
  cases cs <;> rfl

theorem length_le_of_cutThrough? (h : cutThrough? mark cs = some (text, rest)) :
    mark.length ≤ cs.length := by
  induction cs generalizing text rest with
  | nil =>
    rw [cutThrough?] at h
    split at h
    · next hm => simp [List.isEmpty_iff.mp hm]
    · cases h
  | cons c cs ih =>
    rw [cutThrough?] at h
    split at h
    · next hp => exact (List.isPrefixOf_iff_prefix.mp hp).length_le
    · obtain ⟨⟨text, rest⟩, hc, -⟩ := Option.map_eq_some_iff.mp h
      have := ih hc
      rw [List.length_cons]
      omega

theorem cutThrough?_append (h : cutThrough? mark cs = some (text, rest)) (more : List Char) :
    cutThrough? mark (cs ++ more) = some (text, rest ++ more) := by
  induction cs generalizing text with
  | nil =>
    rw [cutThrough?] at h
    split at h
    · next hm =>
      cases h
      simp [List.isEmpty_iff.mp hm]
    · cases h
  | cons c cs ih =>
    rw [cutThrough?] at h
    rw [List.cons_append, cutThrough?]
    split at h
    · next hp =>
      cases h
      have hp := List.isPrefixOf_iff_prefix.mp hp
      have hp' : mark.isPrefixOf (c :: (cs ++ more)) = true :=
        List.isPrefixOf_iff_prefix.mpr (hp.trans (List.prefix_append _ more))
      rw [if_pos hp', ← List.cons_append, List.drop_append_of_le_length hp.length_le]
    · next hn =>
      obtain ⟨⟨text, rest⟩, hc, he⟩ := Option.map_eq_some_iff.mp h
      cases he
      have hn' : ¬ mark.isPrefixOf (c :: (cs ++ more)) = true := by
        rw [List.isPrefixOf_iff_prefix] at hn ⊢
        intro hp
        have hl := length_le_of_cutThrough? hc
        exact hn (List.prefix_of_prefix_length_le hp (List.prefix_append (c :: cs) more)
          (by rw [List.length_cons]; omega))
      rw [if_neg hn', ih hc]
      rfl

theorem cutThrough?_of_cut (h : cutThrough? mark (text ++ rest) = some (text, rest))
    (hp : rest' <+: rest) : cutThrough? mark (text ++ rest') = some (text, rest') := by
  induction text with
  | nil =>
    cases mark with
    | nil => rw [List.nil_append, cutThrough?_nil]
    | cons c mark => exact absurd rfl (ne_nil_of_cutThrough? (List.cons_ne_nil c mark) h)
  | cons c text ih =>
    rw [List.cons_append, cutThrough?] at h
    split at h
    · obtain rfl : mark = c :: text := congrArg Prod.fst (Option.some.inj h)
      rw [List.cons_append, cutThrough?, if_pos (by simp)]
      simp
    · next hn =>
      obtain ⟨⟨text', rest''⟩, hc, he⟩ := Option.map_eq_some_iff.mp h
      cases he
      have hn' : ¬ mark.isPrefixOf (c :: (text ++ rest')) = true := by
        rw [List.isPrefixOf_iff_prefix] at hn ⊢
        intro hm
        exact hn (hm.trans ((List.prefix_append_right_inj (c :: text)).mpr hp))
      rw [List.cons_append, cutThrough?, if_neg hn', ih hc]
      rfl

end Cuts

theorem not_of_split?_run {p : Char → Bool} {cs text rest : List Char}
    (h : (run p).split? cs = some (text, rest)) : ∀ c ∈ rest.head?, p c = false := by
  obtain ⟨-, rfl⟩ := by simpa [split?] using h
  intro c hc
  have hd := List.head?_dropWhile_not p cs
  rwa [Option.mem_def.mp hc] at hd

variable {p : Pattern} {cs text rest rest' : List Char}

theorem isSome_split?_of_nil (h : (p.split? []).isSome) (cs : List Char) :
    (p.split? cs).isSome := by
  induction p generalizing cs with
  | word text =>
    cases text with
    | nil => rfl
    | cons c text => cases h
  | among p => cases h
  | run p => rfl
  | through mark =>
    cases mark with
    | nil => simp [split?]
    | cons c mark => cases h
  | seq a b iha ihb =>
    obtain ⟨⟨text, rest⟩, h⟩ := Option.isSome_iff_exists.mp h
    obtain ⟨first, second, between, ha, hb, -⟩ := of_split?_seq h
    obtain ⟨-, rfl⟩ := List.append_eq_nil_iff.mp (append_of_split? ha)
    obtain ⟨⟨first', between'⟩, ha'⟩ :=
      Option.isSome_iff_exists.mp (iha (by rw [ha]; rfl) cs)
    obtain ⟨⟨second', rest'⟩, hb'⟩ :=
      Option.isSome_iff_exists.mp (ihb (by rw [hb]; rfl) between')
    rw [split?_seq ha' hb']
    rfl

/-- In a longer text a pattern takes the same lexeme, unless the lexeme had
reached the end. Then it still takes one. -/
theorem split?_append (h : p.split? cs = some (text, rest)) (more : List Char) :
    p.split? (cs ++ more) = some (text, rest ++ more) ∨
      rest = [] ∧ (p.split? (cs ++ more)).isSome := by
  induction p generalizing cs text rest with
  | word mark =>
    have hm := of_split?_word h
    have hc := append_of_split? h
    subst hm
    left
    rw [← hc, List.append_assoc, split?_word_append]
  | among p =>
    obtain ⟨c, rfl, hc⟩ := of_split?_among h
    left
    rw [← append_of_split? h]
    exact split?_among hc _
  | run p =>
    cases rest with
    | nil => exact .inr ⟨rfl, rfl⟩
    | cons c rest =>
      left
      rw [← append_of_split? h, List.append_assoc]
      exact split?_run_append (of_split?_run h) fun d hd => not_of_split?_run h d hd
  | through mark => exact .inl (cutThrough?_append h more)
  | seq a b iha ihb =>
    obtain ⟨first, second, between, ha, hb, rfl⟩ := of_split?_seq h
    rcases iha ha with ha' | ⟨rfl, ha'⟩
    · rcases ihb hb with hb' | ⟨rfl, hb'⟩
      · exact .inl (split?_seq ha' hb')
      · obtain ⟨⟨second', rest'⟩, hb'⟩ := Option.isSome_iff_exists.mp hb'
        right
        rw [split?_seq ha' hb']
        exact ⟨rfl, rfl⟩
    · obtain ⟨-, rfl⟩ := List.append_eq_nil_iff.mp (append_of_split? hb)
      obtain ⟨⟨first', between'⟩, ha'⟩ := Option.isSome_iff_exists.mp ha'
      obtain ⟨⟨second', rest'⟩, hb'⟩ :=
        Option.isSome_iff_exists.mp (isSome_split?_of_nil (by rw [hb]; rfl) between')
      right
      rw [split?_seq ha' hb']
      exact ⟨rfl, rfl⟩

theorem split?_eq_none_of_cut {cs' : List Char} (h : p.split? cs = none) (hp : cs' <+: cs) :
    p.split? cs' = none := by
  obtain ⟨more, rfl⟩ := hp
  cases hs : p.split? cs' with
  | none => rfl
  | some result =>
    rcases split?_append hs more with hs | ⟨-, hs⟩
    · cases h.symm.trans hs
    · rw [h] at hs
      cases hs

theorem split?_of_cut (h : p.split? (text ++ rest) = some (text, rest)) (hp : rest' <+: rest) :
    p.split? (text ++ rest') = some (text, rest') := by
  induction p generalizing text rest rest' with
  | word mark =>
    obtain rfl := of_split?_word h
    exact split?_word_append text rest'
  | among p =>
    obtain ⟨c, rfl, hc⟩ := of_split?_among h
    exact split?_among hc rest'
  | run p =>
    refine split?_run_append (of_split?_run h) fun c hc => not_of_split?_run h c ?_
    obtain ⟨more, rfl⟩ := hp
    cases rest' with
    | nil => cases hc
    | cons d rest' => exact hc
  | through mark => exact cutThrough?_of_cut h hp
  | seq a b iha ihb =>
    obtain ⟨first, second, between, ha, hb, rfl⟩ := of_split?_seq h
    obtain rfl := append_of_split? hb
    rw [List.append_assoc] at ha ⊢
    exact split?_seq (iha ha ((List.prefix_append_right_inj second).mpr hp)) (ihb hb hp)

/-! ## Characters that a pattern avoids -/

/-- No lexeme of the pattern has the character, and it ends every lexeme. -/
def Avoids (c : Char) : Pattern → Prop
  | word text => c ∉ text
  | among p => p c = false
  | run p => p c = false
  | through _ => False
  | seq a b => a.Avoids c ∧ b.Avoids c

variable {c : Char}

theorem not_mem_of_avoids (h : p.Avoids c) (hs : p.split? cs = some (text, rest)) : c ∉ text := by
  induction p generalizing cs text rest with
  | word mark =>
    rw [of_split?_word hs]
    exact h
  | among p =>
    obtain ⟨d, rfl, hd⟩ := of_split?_among hs
    rintro (_ | ⟨_, ⟨⟩⟩)
    exact absurd hd (by rw [show p c = false from h]; decide)
  | run p =>
    intro hc
    exact absurd (of_split?_run hs c hc) (by rw [show p c = false from h]; decide)
  | through mark => exact h.elim
  | seq a b iha ihb =>
    obtain ⟨first, second, between, ha, hb, rfl⟩ := of_split?_seq hs
    rw [List.mem_append, not_or]
    exact ⟨iha h.1 ha, ihb h.2 hb⟩

theorem split?_append_cons_of_avoids (h : p.Avoids c) (cs more : List Char) :
    p.split? (cs ++ c :: more) =
      (p.split? cs).map fun (text, rest) => (text, rest ++ c :: more) := by
  induction p generalizing cs with
  | word mark =>
    by_cases hp : mark <+: cs
    · obtain ⟨rest, rfl⟩ := hp
      rw [List.append_assoc, split?_word_append, split?_word_append]
      rfl
    · have hp' : ¬ mark <+: cs ++ c :: more := by
        intro hm
        rcases Nat.le_total mark.length cs.length with hl | hl
        · exact hp (List.prefix_of_prefix_length_le hm (List.prefix_append cs _) hl)
        · -- A mark that is longer than the text before the character holds it.
          obtain ⟨tail, rfl⟩ := List.prefix_of_prefix_length_le (List.prefix_append cs _) hm hl
          rw [List.prefix_append_right_inj] at hm
          cases tail with
          | nil => exact hp (by simp)
          | cons d tail =>
            obtain ⟨rfl, -⟩ := List.cons_prefix_cons.mp hm
            exact h (by simp)
      simp [split?, hp, hp']
  | among p =>
    cases cs with
    | nil => simp [split?, show p c = false from h]
    | cons d cs =>
      simp only [List.cons_append, split?]
      split <;> rfl
  | run p =>
    have hs : (run p).split? cs = some (cs.takeWhile p, cs.dropWhile p) := rfl
    have hr : ∀ d ∈ (cs.dropWhile p ++ c :: more).head?, p d = false := by
      intro d hd
      cases hw : cs.dropWhile p with
      | nil =>
        rw [hw] at hd
        cases hd
        exact h
      | cons e rest =>
        rw [hw] at hs hd
        exact not_of_split?_run hs d hd
    have ha := split?_run_append (of_split?_run hs) hr
    rw [← List.append_assoc, append_of_split? hs] at ha
    rw [ha, hs]
    rfl
  | through mark => exact h.elim
  | seq a b iha ihb =>
    rw [split?, iha h.1, split?]
    cases a.split? cs with
    | none => rfl
    | some result =>
      obtain ⟨first, between⟩ := result
      simp only [Option.map_some, Option.bind_some, ihb h.2, Option.map_map]
      rfl

end Pattern

namespace Lexicon

open Pattern

def opensLayout (c : Char) : Bool := isBlank c || c = '/'

variable {c : Char}

theorem not_opensLayout_of_isHashChar (h : isHashChar c = true) : opensLayout c = false := by
  have hn : (33 ≤ c.toNat ∧ c.toNat ≤ 126) ∧ c ≠ '/' := by
    rcases isHashChar_iff.mp h with h | h | h | rfl
    · have := isUpper_iff.mp h
      exact ⟨by omega, by rintro rfl; exact absurd h (by decide)⟩
    · have := isLower_iff.mp h
      exact ⟨by omega, by rintro rfl; exact absurd h (by decide)⟩
    · have := isDigit_iff.mp h
      exact ⟨by omega, by rintro rfl; exact absurd h (by decide)⟩
    · decide
  simp [opensLayout, isBlank_eq_false hn.1, hn.2]

theorem eq_false_of_opensLayout {p : Char → Bool} (hc : opensLayout c = true)
    (hp : p c = true → isHashChar c = true) : p c = false := by
  rw [Bool.eq_false_iff]
  intro h
  rw [not_opensLayout_of_isHashChar (hp h)] at hc
  cases hc

theorem avoids_word {text : List Char} (h : (text.all fun d => !opensLayout d) = true)
    (hc : opensLayout c = true) : (word text).Avoids c := by
  intro hm
  have hd := List.all_eq_true.mp h c hm
  rw [hc] at hd
  cases hd

/-- The rules for tokens avoid what layout starts with. They stand behind the three
rules for layout. -/
theorem avoids_of_mem_rules (hc : opensLayout c = true) :
    ∀ rule ∈ rules.drop 3, rule.pattern.Avoids c := by
  have hh : isHashChar c = false := eq_false_of_opensLayout hc id
  have hw : isLowerChar c = false := eq_false_of_opensLayout hc isHashChar_of_isLowerChar
  have hd : c.isDigit = false := eq_false_of_opensLayout hc isHashChar_of_isDigit
  have hl : c.isLower = false :=
    eq_false_of_opensLayout hc fun h => isHashChar_iff.mpr (.inr (.inl h))
  have hu : c.isUpper = false := eq_false_of_opensLayout hc fun h => isHashChar_iff.mpr (.inl h)
  have hs : isCapitalChar c = false := by
    have ha : c.isAlphanum = false := (Bool.or_eq_false_iff.mp hh).1
    have hn : c ≠ '_' := by
      rintro rfl
      exact absurd hc (by decide)
    simp [isCapitalChar, ha, hn]
  intro rule hm
  simp only [rules, List.drop_succ_cons, List.drop_zero, List.mem_cons, List.not_mem_nil,
    or_false] at hm
  rcases hm with rfl | rfl | rfl | rfl | rfl | rfl | rfl | hm
  · exact ⟨avoids_word rfl hc, hh, hh⟩
  · exact ⟨avoids_word rfl hc, hw, hw⟩
  · exact ⟨⟨hd, hd⟩, avoids_word rfl hc⟩
  · exact ⟨⟨hd, hd⟩, avoids_word rfl hc⟩
  · exact ⟨hd, hd⟩
  · exact ⟨hl, hw⟩
  · exact ⟨hu, hs⟩
  · rcases hm with rfl | rfl | rfl | rfl | rfl | rfl | rfl | rfl | rfl | rfl | rfl
    all_goals exact avoids_word rfl hc

theorem ne_none_of_mem_rules {text : List Char} :
    ∀ rule ∈ rules.drop 3, rule.kind? text ≠ none := by
  simp only [rules, List.drop_succ_cons, List.drop_zero, List.forall_mem_cons]
  repeat' apply And.intro
  all_goals first | exact Option.some_ne_none _ | exact List.forall_mem_nil _

end Lexicon

namespace Lexeme

open Lexicon Pattern

variable {cs text rest rest' : List Char} {kind? : Option TokenKind}

theorem ne_nil_of_next? (h : next? cs = some ⟨kind?, text, rest⟩) : text ≠ [] := by
  obtain ⟨rule, hm, hs, -⟩ := exists_rule_of_next? h
  exact ne_nil_of_split? (consumes_of_mem_rules rule hm) hs

theorem next?_of_cut (h : next? (text ++ rest) = some ⟨kind?, text, rest⟩)
    (hp : rest' <+: rest) : next? (text ++ rest') = some ⟨kind?, text, rest'⟩ := by
  obtain ⟨before, rule, after, hr, hs, hb⟩ := List.findSome?_eq_some_iff.mp h
  obtain ⟨⟨text', rest''⟩, hs, he⟩ := Option.map_eq_some_iff.mp hs
  cases he
  refine List.findSome?_eq_some_iff.mpr ⟨before, rule, after, hr, ?_, fun other ho => ?_⟩
  · rw [split?_of_cut hs hp]
    rfl
  · have hn := Option.map_eq_none_iff.mp (hb other ho)
    rw [split?_eq_none_of_cut hn ((List.prefix_append_right_inj text).mpr hp)]
    rfl

theorem next?_cons_of_not_opensLayout {c : Char} (h : opensLayout c = false) (cs : List Char) :
    next? (c :: cs) = (rules.drop 3).findSome? fun rule =>
      (rule.pattern.split? (c :: cs)).map fun (text, rest) => ⟨rule.kind? text, text, rest⟩ := by
  simp only [opensLayout, Bool.or_eq_false_iff, decide_eq_false_iff_not] at h
  rw [next?, ← List.take_append_drop 3 rules, List.findSome?_append]
  simp [rules, split?_runOf_of_not h.1, split?_seq_word_of_ne h.2]

theorem next?_append_cons {c d : Char} (hc : opensLayout c = false) (hd : opensLayout d = true)
    (cs more : List Char) :
    next? (c :: cs ++ d :: more) =
      (next? (c :: cs)).map fun lexeme => { lexeme with rest := lexeme.rest ++ d :: more } := by
  have hf (others : List LexicalRule) (ha : ∀ rule ∈ others, rule.pattern.Avoids d) :
      (others.findSome? fun rule => (rule.pattern.split? (c :: cs ++ d :: more)).map
          fun (text, rest) => (⟨rule.kind? text, text, rest⟩ : Lexeme)) =
        (others.findSome? fun rule => (rule.pattern.split? (c :: cs)).map
          fun (text, rest) => (⟨rule.kind? text, text, rest⟩ : Lexeme)).map
            fun lexeme => { lexeme with rest := lexeme.rest ++ d :: more } := by
    induction others with
    | nil => rfl
    | cons rule others ih =>
      obtain ⟨hr, ho⟩ := List.forall_mem_cons.mp ha
      rw [List.findSome?_cons, List.findSome?_cons, split?_append_cons_of_avoids hr]
      cases rule.pattern.split? (c :: cs) with
      | none => exact ih ho
      | some result => rfl
  rw [next?_cons_of_not_opensLayout hc, ← hf _ (avoids_of_mem_rules hd), List.cons_append,
    next?_cons_of_not_opensLayout hc]

theorem mem_drop_rules {rule : LexicalRule} (hm : rule ∈ rules)
    (hk : rule.kind? text ≠ none) : rule ∈ rules.drop 3 := by
  rw [← List.take_append_drop 3 rules, List.mem_append] at hm
  refine hm.resolve_left fun hm => hk ?_
  simp only [rules, List.take_succ_cons, List.take_zero, List.mem_cons, List.not_mem_nil,
    or_false] at hm
  rcases hm with rfl | rfl | rfl <;> rfl

theorem not_opensLayout_of_next? {kind : TokenKind}
    (h : next? cs = some ⟨some kind, text, rest⟩) : ∀ c ∈ text, opensLayout c = false := by
  obtain ⟨rule, hm, hs, hk⟩ := exists_rule_of_next? h
  intro c hc
  rw [Bool.eq_false_iff]
  intro ho
  have hn : rule.kind? text ≠ none := by
    rw [hk]
    exact Option.some_ne_none _
  exact not_mem_of_avoids (avoids_of_mem_rules ho rule (mem_drop_rules hm hn)) hs hc

theorem next?_token_append {kind : TokenKind} {c : Char}
    (h : next? (text ++ rest) = some ⟨some kind, text, rest⟩) (hc : opensLayout c = true)
    (more : List Char) :
    next? (text ++ (rest ++ c :: more)) = some ⟨some kind, text, rest ++ c :: more⟩ := by
  obtain ⟨d, text', rfl⟩ := List.exists_cons_of_ne_nil (ne_nil_of_next? h)
  have hd := not_opensLayout_of_next? h d (by simp)
  rw [← List.append_assoc, List.cons_append, next?_append_cons hd hc, ← List.cons_append, h]
  rfl

theorem next?_of_blanks (h : (runOf isBlank).split? cs = some (text, rest)) :
    next? cs = some ⟨none, text, rest⟩ := by
  refine List.findSome?_eq_some_iff.mpr ⟨[], _, rules.drop 1, rfl, ?_, by simp⟩
  rw [h]
  rfl

theorem next?_of_line (h : (seq (word ['/', '/']) (run (· ≠ '\n'))).split? cs = some (text, rest)) :
    next? cs = some ⟨none, text, rest⟩ := by
  refine List.findSome?_eq_some_iff.mpr ⟨rules.take 1, _, rules.drop 2, rfl, ?_, ?_⟩
  · rw [h]
    rfl
  · obtain ⟨first, second, between, hw, -, rfl⟩ := of_split?_seq h
    obtain rfl := of_split?_word hw
    rw [← append_of_split? h]
    rintro rule (_ | ⟨_, ⟨⟩⟩)
    rfl

theorem next?_of_block
    (h : (seq (word ['/', '*']) (through ['*', '/'])).split? cs = some (text, rest)) :
    next? cs = some ⟨none, text, rest⟩ := by
  refine List.findSome?_eq_some_iff.mpr ⟨rules.take 2, _, rules.drop 3, rfl, ?_, ?_⟩
  · rw [h]
    rfl
  · obtain ⟨first, second, between, hw, -, rfl⟩ := of_split?_seq h
    obtain rfl := of_split?_word hw
    rw [← append_of_split? h]
    rintro rule (_ | ⟨_, _ | ⟨_, ⟨⟩⟩⟩) <;> rfl

/-- Layout that does not reach the end of the text is read the same in a longer
one. -/
theorem next?_layout_append (h : next? (text ++ rest) = some ⟨none, text, rest⟩)
    (hr : rest ≠ []) (more : List Char) :
    next? (text ++ (rest ++ more)) = some ⟨none, text, rest ++ more⟩ := by
  obtain ⟨rule, hm, hs, hk⟩ := exists_rule_of_next? h
  have hs' := (split?_append hs more).resolve_right fun hn => hr hn.1
  rw [List.append_assoc] at hs'
  rw [← List.take_append_drop 3 rules, List.mem_append] at hm
  have hm := hm.resolve_right fun hm => ne_none_of_mem_rules rule hm hk
  simp only [rules, List.take_succ_cons, List.take_zero, List.mem_cons, List.not_mem_nil,
    or_false] at hm
  rcases hm with rfl | rfl | rfl
  · exact next?_of_blanks hs'
  · exact next?_of_line hs'
  · exact next?_of_block hs'

end Lexeme

end Stylesheet
