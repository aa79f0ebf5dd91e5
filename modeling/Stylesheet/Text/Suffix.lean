/-! # Repeated suffixes

A text without every repetition of a suffix at its end.
-/

namespace Stylesheet.Text

def dropRepeats (mark cs : List Char) : List Char :=
  if mark ≠ [] ∧ mark.isPrefixOf cs then dropRepeats mark (cs.drop mark.length) else cs
termination_by cs.length
decreasing_by
  next h =>
    have hm := List.length_pos_iff.mpr h.1
    have hc := (List.isPrefixOf_iff_prefix.mp h.2).length_le
    simp only [List.length_drop]
    omega

/-- The text without every repetition of `mark` at its end. -/
def dropSuffixes (mark cs : List Char) : List Char :=
  (dropRepeats mark.reverse cs.reverse).reverse

variable {mark cs : List Char}

theorem dropRepeats_append (hm : mark ≠ []) (cs : List Char) :
    dropRepeats mark (mark ++ cs) = dropRepeats mark cs := by
  rw [dropRepeats, if_pos ⟨hm, List.isPrefixOf_iff_prefix.mpr (List.prefix_append _ _)⟩,
    List.drop_left]

theorem exists_append_dropRepeats (mark cs : List Char) :
    ∃ n, cs = (List.replicate n mark).flatten ++ dropRepeats mark cs := by
  induction cs using dropRepeats.induct mark with
  | case1 cs h ih =>
    obtain ⟨n, hn⟩ := ih
    obtain ⟨rest, rfl⟩ := List.isPrefixOf_iff_prefix.mp h.2
    rw [List.drop_left] at hn
    refine ⟨n + 1, ?_⟩
    rw [dropRepeats_append h.1, List.replicate_succ, List.flatten_cons, List.append_assoc, ← hn]
  | case2 cs h => exact ⟨0, by rw [dropRepeats, if_neg h]; rfl⟩

theorem dropRepeats_replicate_append (h : mark ≠ [] → ¬ mark <+: cs) (n : Nat) :
    dropRepeats mark ((List.replicate n mark).flatten ++ cs) = cs := by
  induction n with
  | zero =>
    rw [List.replicate_zero, List.flatten_nil, List.nil_append, dropRepeats, if_neg]
    rw [List.isPrefixOf_iff_prefix]
    exact fun hp => h hp.1 hp.2
  | succ n ih =>
    rw [List.replicate_succ, List.flatten_cons, List.append_assoc]
    by_cases hm : mark = []
    · subst hm
      exact ih
    · rw [dropRepeats_append hm, ih]

theorem reverse_flatten_replicate (n : Nat) (mark : List Char) :
    (List.replicate n mark).flatten.reverse = (List.replicate n mark.reverse).flatten := by
  rw [List.reverse_flatten, List.map_replicate, List.reverse_replicate]

/-- What is dropped is a number of repetitions. -/
theorem exists_dropSuffixes_append (mark cs : List Char) :
    ∃ n, cs = dropSuffixes mark cs ++ (List.replicate n mark).flatten := by
  obtain ⟨n, hn⟩ := exists_append_dropRepeats mark.reverse cs.reverse
  refine ⟨n, List.reverse_inj.mp ?_⟩
  rwa [List.reverse_append, reverse_flatten_replicate, dropSuffixes, List.reverse_reverse]

/-- No repetition is left. -/
theorem dropSuffixes_append_replicate (h : mark ≠ [] → ¬ mark <:+ cs) (n : Nat) :
    dropSuffixes mark (cs ++ (List.replicate n mark).flatten) = cs := by
  rw [dropSuffixes, List.reverse_append, reverse_flatten_replicate, dropRepeats_replicate_append,
    List.reverse_reverse]
  intro hm hp
  exact h (by simpa using hm) (List.reverse_prefix.mp hp)

end Stylesheet.Text
