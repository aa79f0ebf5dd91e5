import Mathlib.Tactic.SplitIfs
import Stylesheet.Excerpt

/-! # The line at a place

A source falls into lines, and each newline belongs to the line it ends. The
line found for a byte is the one that holds it. No other line holds that byte,
and from the end of the source on there is none.
-/

namespace Stylesheet

open Text

theorem Text.byteLength_reverse (cs : List Char) : byteLength cs.reverse = byteLength cs := by
  induction cs with
  | nil => rfl
  | cons c cs ih =>
    simp only [List.reverse_cons, byteLength_append, byteLength_cons, byteLength_nil, ih]
    omega

theorem Text.exists_append_of_byteLength_le {s t u v : List Char} (h : s ++ t = u ++ v)
    (hb : byteLength s ≤ byteLength u) : ∃ between, u = s ++ between ∧ t = between ++ v := by
  rcases List.append_eq_append_iff.mp h with ⟨between, hu, ht⟩ | ⟨between, hs, hv⟩
  · exact ⟨between, hu, ht⟩
  · rw [hs, byteLength_append] at hb
    cases between with
    | nil => exact ⟨[], by simpa using hs.symm, by simpa using hv.symm⟩
    | cons c cs =>
      have := c.utf8Size_pos
      rw [byteLength_cons] at hb
      omega

namespace Line

/-- A line stands in a text between what is before it and what is behind it, and
holds the byte at a place. The lines of the text are counted from `first` on. -/
structure Stands (line : Line) (first : Nat) (before after : List Char) (place : Nat) :
    Prop where
  place_eq : byteLength before + line.column = place
  column_lt : line.column < byteLength line.text
  number_eq : line.number = first + before.count '\n'
  begins : before = [] ∨ before.getLast? = some '\n'
  single : '\n' ∉ line.text.dropLast
  ends : after ≠ [] → line.text.getLast? = some '\n'

/-! ## Finding a line -/

section Seek

variable {line : Line} {number ahead : Nat} {before : List Char} {c : Char} {cs : List Char}

theorem exists_firstLine (cs : List Char) :
    ∃ rest, cs = firstLine cs ++ rest ∧ '\n' ∉ (firstLine cs).dropLast ∧
      (rest ≠ [] → (firstLine cs).getLast? = some '\n') := by
  induction cs with
  | nil => exact ⟨[], rfl, List.not_mem_nil, fun h => absurd rfl h⟩
  | cons c cs ih =>
    obtain ⟨rest, he, hs, hl⟩ := ih
    unfold firstLine
    split_ifs with hc
    · subst hc
      exact ⟨cs, rfl, List.not_mem_nil, fun _ => rfl⟩
    · refine ⟨rest, congrArg (c :: ·) he, ?_, ?_⟩
      · cases hf : firstLine cs with
        | nil => exact List.not_mem_nil
        | cons d ds =>
          rw [hf] at hs
          simp only [List.dropLast_cons_cons, List.mem_cons, not_or]
          exact ⟨Ne.symm hc, hs⟩
      · intro hr
        simp [List.getLast?_cons, hl hr]

theorem stands_begun (hb : '\n' ∉ before) (ha : ahead < c.utf8Size) (number : Nat)
    (cs : List Char) :
    ∃ after, before.reverse ++ c :: cs = before.reverse ++ firstLine (c :: cs) ++ after ∧
      Stands ⟨number, before.reverse ++ firstLine (c :: cs), byteLength before + ahead⟩ number []
        after (byteLength before + ahead) := by
  obtain ⟨rest, he, hs, hl⟩ := exists_firstLine (c :: cs)
  obtain ⟨more, hm⟩ : ∃ more, firstLine (c :: cs) = c :: more := by
    unfold firstLine
    split_ifs
    · exact ⟨[], rfl⟩
    · exact ⟨firstLine cs, rfl⟩
  refine ⟨rest, ?_, ?_⟩
  · rw [List.append_assoc, ← he]
  · rw [hm] at hs hl ⊢
    constructor
    · simp
    · simp only [byteLength_append, byteLength_reverse, byteLength_cons]
      omega
    · simp
    · exact .inl rfl
    · simp only [List.dropLast_append_cons, List.mem_append, List.mem_reverse, not_or]
      exact ⟨hb, hs⟩
    · intro hr
      simp only [List.getLast?_append, hl hr, Option.some_or]

theorem Stands.behind {front after : List Char} {place : Nat} (hb : '\n' ∉ before)
    (h : line.Stands (number + 1) front after place) :
    line.Stands number (before.reverse ++ '\n' :: front) after
      (byteLength before + '\n'.utf8Size + place) := by
  have hp := h.place_eq
  have hn := h.number_eq
  have hz : before.count '\n' = 0 := List.count_eq_zero.mpr hb
  refine { h with place_eq := ?_, number_eq := ?_, begins := .inr ?_ }
  · simp only [byteLength_append, byteLength_reverse, byteLength_cons]
    omega
  · simp only [List.count_append, List.count_reverse, List.count_cons_self, hz]
    omega
  · rcases h.begins with rfl | hl
    · simp
    · simp [List.getLast?_append, List.getLast?_cons, hl]

/-- What is found stands in the text. The line that has been begun has the number
`number`, and holds no newline yet. -/
theorem stands_of_seek (h : seek number before ahead cs = some line) (hb : '\n' ∉ before) :
    ∃ front after, before.reverse ++ cs = front ++ line.text ++ after ∧
      line.Stands number front after (byteLength before + ahead) := by
  induction cs generalizing number before ahead with
  | nil => cases h
  | cons c cs ih =>
    unfold seek at h
    split_ifs at h with ha hc
    · cases h
      exact ⟨[], stands_begun hb ha number cs⟩
    · subst hc
      obtain ⟨front, after, he, hs⟩ := ih h List.not_mem_nil
      refine ⟨before.reverse ++ '\n' :: front, after, by simpa using he, ?_⟩
      have hp : byteLength before + ahead =
          byteLength before + '\n'.utf8Size + (byteLength [] + (ahead - '\n'.utf8Size)) := by
        simp only [byteLength_nil]
        omega
      rw [hp]
      exact hs.behind hb
    · obtain ⟨front, after, he, hs⟩ := ih h (by simp [hb, Ne.symm hc])
      refine ⟨front, after, by simpa using he, ?_⟩
      have hp : byteLength before + ahead =
          byteLength (c :: before) + (ahead - c.utf8Size) := by
        simp only [byteLength_cons]
        omega
      rwa [hp]

theorem seek_eq_none_iff : seek number before ahead cs = none ↔ byteLength cs ≤ ahead := by
  induction cs generalizing number before ahead with
  | nil => simp [seek]
  | cons c cs ih =>
    unfold seek
    split_ifs with ha hc
    · simp only [byteLength_cons, false_iff]
      omega
    · rw [ih, byteLength_cons]
      omega
    · rw [ih, byteLength_cons]
      omega

end Seek

section Find

variable {source : String} {offset : UInt32} {line : Line}

theorem find?_eq_none_iff :
    find? source offset = none ↔ byteLength source.toList ≤ offset.toNat :=
  seek_eq_none_iff

theorem stands_of_find? (h : find? source offset = some line) :
    ∃ before after, source.toList = before ++ line.text ++ after ∧
      line.Stands 1 before after offset.toNat := by
  simpa using stands_of_seek h List.not_mem_nil

end Find

/-! ## The only line -/

section Only

variable {line other : Line} {first place : Nat} {before before' after after' : List Char}

theorem mem_of_getLast?_append {front back : List Char} {c : Char}
    (h : (front ++ back).getLast? = some c) (hb : back ≠ []) : c ∈ back := by
  rw [List.getLast?_append, Option.or_eq_some_iff] at h
  rcases h with h | ⟨h, -⟩
  · exact List.mem_of_getLast? h
  · exact absurd (List.getLast?_eq_none_iff.mp h) hb

theorem Stands.not_mem_of_append {front back : List Char} (h : line.Stands first before after place)
    (he : line.text = front ++ back) (hb : back ≠ []) : '\n' ∉ front := by
  intro hf
  apply h.single
  rw [he, List.dropLast_append_of_ne_nil hb]
  exact List.mem_append_left _ hf

/-- Of two lines that hold the same byte, neither begins inside the other. -/
theorem Stands.isPrefix (h : line.Stands first before after place)
    (h' : other.Stands first before' after' place)
    (he : before ++ (line.text ++ after) = before' ++ (other.text ++ after')) :
    before' <+: before := by
  rcases Nat.lt_or_ge (byteLength before) (byteLength before') with hlt | hle
  · obtain ⟨front, rfl, hf⟩ := exists_append_of_byteLength_le he (Nat.le_of_lt hlt)
    have hp := h.place_eq
    have hp' := h'.place_eq
    have hc := h.column_lt
    rw [byteLength_append] at hlt hp'
    obtain ⟨back, ht, -⟩ := exists_append_of_byteLength_le hf.symm (by omega)
    have hb : back ≠ [] := by
      rintro rfl
      rw [ht, List.append_nil] at hc
      omega
    have hf : front ≠ [] := by
      rintro rfl
      simp at hlt
    rcases h'.begins with hnil | hl
    · exact absurd (List.append_eq_nil_iff.mp hnil).2 hf
    · exact absurd (mem_of_getLast?_append hl hf) (h.not_mem_of_append ht hb)
  · obtain ⟨between, hb, -⟩ := exists_append_of_byteLength_le he.symm hle
    exact ⟨between, hb.symm⟩

theorem Stands.text_isPrefix (h : line.Stands first before after place)
    (h' : other.Stands first before after' place)
    (he : line.text ++ after = other.text ++ after') : other.text <+: line.text := by
  rcases Nat.lt_or_ge (byteLength line.text) (byteLength other.text) with hlt | hle
  · obtain ⟨back, ht, ha⟩ := exists_append_of_byteLength_le he (Nat.le_of_lt hlt)
    have hb : back ≠ [] := by
      rintro rfl
      rw [ht, List.append_nil] at hlt
      omega
    have hl : line.text.getLast? = some '\n' := by
      apply h.ends
      rw [ha]
      exact List.append_ne_nil_of_left_ne_nil hb _
    exact absurd (List.mem_of_getLast? hl) (h'.not_mem_of_append ht hb)
  · obtain ⟨between, hb, -⟩ := exists_append_of_byteLength_le he.symm hle
    exact ⟨between, hb.symm⟩

theorem Stands.eq (h : line.Stands first before after place)
    (h' : other.Stands first before' after' place)
    (he : before ++ line.text ++ after = before' ++ other.text ++ after') : line = other := by
  rw [List.append_assoc, List.append_assoc] at he
  obtain rfl : before = before' :=
    (h'.isPrefix h he.symm).eq_of_length_le (h.isPrefix h' he).length_le
  have he := List.append_cancel_left he
  have ht : line.text = other.text :=
    (h'.text_isPrefix h he.symm).eq_of_length_le (h.text_isPrefix h' he).length_le
  have hn : line.number = other.number := h.number_eq.trans h'.number_eq.symm
  have hc : line.column = other.column :=
    Nat.add_left_cancel (h.place_eq.trans h'.place_eq.symm)
  obtain ⟨number, text, column⟩ := line
  obtain ⟨number', text', column'⟩ := other
  rw [Line.mk.injEq]
  exact ⟨hn, ht, hc⟩

end Only

theorem find?_eq_some_iff {source : String} {offset : UInt32} {line : Line} :
    find? source offset = some line ↔
      ∃ before after, source.toList = before ++ line.text ++ after ∧
        line.Stands 1 before after offset.toNat := by
  constructor
  · exact stands_of_find?
  · rintro ⟨before, after, he, hs⟩
    cases hf : find? source offset with
    | none =>
      have hle := find?_eq_none_iff.mp hf
      have hp := hs.place_eq
      have hc := hs.column_lt
      rw [he, byteLength_append, byteLength_append] at hle
      omega
    | some other =>
      obtain ⟨before', after', he', hs'⟩ := stands_of_find? hf
      rw [hs'.eq hs (he'.symm.trans he)]

/-- There is no line from the end of a source on. Before it, the line that is found is
the one that stands in the source and holds the byte. -/
theorem find?_exact (source : String) (offset : UInt32) :
    (find? source offset = none ↔ byteLength source.toList ≤ offset.toNat) ∧
      ∀ line, find? source offset = some line ↔
        ∃ before after, source.toList = before ++ line.text ++ after ∧
          line.Stands 1 before after offset.toNat :=
  ⟨find?_eq_none_iff, fun _ => find?_eq_some_iff⟩

end Line

end Stylesheet
