import Stylesheet.Proofs.Lines

/-! # Markers below quoted lines

An excerpt ends in two lines: a source line without the blanks around it, and a
marker that points up to a place in it. The quoted line counts characters and the
marker counts bytes, so the marker stands below its character exactly when every
character before it on the line takes one byte.
-/

namespace Stylesheet

open Text

def Text.lastLine (cs : List Char) : List Char := (cs.reverse.takeWhile (· ≠ '\n')).reverse

def Line.label (line : Line) : List Char := (toString line.number).toList ++ [' ', '|', ' ']

/-- A quoted line shows, at a column, the text that stands at the place of a source
line. It has the source line from the first character that is no indentation up to
the last one that is not blank. -/
inductive Line.Shows (line : Line) (text : List Char) : List Char → Nat → Prop where

  | intro {indent front back trailing : List Char} :
      line.text = indent ++ (front ++ text ++ back) ++ trailing →
      byteLength (indent ++ front) = line.column → (∀ c ∈ indent, isIndent c = true) →
      (∀ c ∈ (front ++ text ++ back).head?, isIndent c = false) →
      (∀ c ∈ trailing, isBlank c = true) →
      (∀ c ∈ (front ++ text ++ back).getLast?, isBlank c = false) →
      line.Shows text (line.label ++ (front ++ text ++ back)) (line.label ++ front).length

/-- A report ends in a quoted line and a marker. The quoted line shows the text at a
place of a source at `column`, and the only caret of the marker is at `caret`. -/
inductive Marks (source : List Char) (place : Nat) (text : List Char) (column caret : Nat) :
    List Char → Prop where

  | intro {line : Line} {before after above quoted lead : List Char} :
      source = before ++ line.text ++ after → line.Stands 1 before after place →
      line.Shows text quoted column → above.getLast? = some '\n' → '\n' ∉ quoted →
      '\n' ∉ lead → '^' ∉ lead → lead.length = caret →
      Marks source place text column caret (above ++ quoted ++ '\n' :: lead ++ ['^', '\n'])

section Stripping

variable {cs front back : List Char} {p : Char → Bool}

theorem exists_run (p : Char → Bool) (cs : List Char) :
    ∃ run rest, cs = run ++ rest ∧ (∀ c ∈ run, p c = true) ∧ ∀ c ∈ rest.head?, p c = false := by
  refine ⟨cs.takeWhile p, cs.dropWhile p, List.takeWhile_append_dropWhile.symm,
    List.all_eq_true.mp List.all_takeWhile, ?_⟩
  intro c hc
  have h := List.head?_dropWhile_not p cs
  rwa [Option.mem_def.mp hc] at h

theorem dropWhile_append_of_head? (hf : ∀ c ∈ front, p c = true)
    (hb : ∀ c ∈ back.head?, p c = false) : (front ++ back).dropWhile p = back := by
  rw [List.dropWhile_append_of_pos hf]
  cases back with
  | nil => rfl
  | cons c cs => simp [hb c rfl]

theorem takeWhile_append_of_head? (hf : ∀ c ∈ front, p c = true)
    (hb : ∀ c ∈ back.head?, p c = false) : (front ++ back).takeWhile p = front := by
  rw [List.takeWhile_append_of_pos hf]
  cases back with
  | nil => simp
  | cons c cs => simp [hb c rfl]

theorem trimEnd_append (hf : ∀ c ∈ front.getLast?, isBlank c = false)
    (hb : ∀ c ∈ back, isBlank c = true) : trimEnd (front ++ back) = front := by
  have h : ((front ++ back).reverse).dropWhile isBlank = front.reverse := by
    rw [List.reverse_append]
    apply dropWhile_append_of_head?
    · simpa using hb
    · simpa using hf
  rw [trimEnd, h, List.reverse_reverse]

theorem exists_trailing (cs : List Char) :
    ∃ front trailing, cs = front ++ trailing ∧ (∀ c ∈ trailing, isBlank c = true) ∧
      ∀ c ∈ front.getLast?, isBlank c = false := by
  obtain ⟨run, rest, he, hr, hh⟩ := exists_run isBlank cs.reverse
  refine ⟨rest.reverse, run.reverse, ?_, by simpa using hr, by simpa using hh⟩
  rw [← List.reverse_append, ← he, List.reverse_reverse]

theorem lastLine_append (hf : front = [] ∨ front.getLast? = some '\n') (hb : '\n' ∉ back) :
    lastLine (front ++ back) = back := by
  have h : ((front ++ back).reverse).takeWhile (· ≠ '\n') = back.reverse := by
    rw [List.reverse_append]
    apply takeWhile_append_of_head?
    · intro c hc
      have : c ≠ '\n' := by
        rintro rfl
        exact hb (List.mem_reverse.mp hc)
      simpa using this
    · rcases hf with rfl | hf
      · simp
      · simp [hf]
  rw [lastLine, h, List.reverse_reverse]

theorem isIndent_iff {c : Char} : Line.isIndent c = true ↔ c = ' ' ∨ c = '\t' := by
  simp [Line.isIndent]

theorem isIndent_eq_false {c : Char} (h : isBlank c = false) : Line.isIndent c = false := by
  rw [← Bool.not_eq_true] at h ⊢
  intro hi
  apply h
  rcases isIndent_iff.mp hi with rfl | rfl <;> rfl

theorem length_le_byteLength (cs : List Char) : cs.length ≤ byteLength cs := by
  induction cs with
  | nil => exact Nat.le_refl _
  | cons c cs ih =>
    have := c.utf8Size_pos
    simp only [List.length_cons, byteLength_cons]
    omega

theorem byteLength_lt_of_append {left text right : List Char} (hn : text ≠ []) :
    byteLength left < byteLength (left ++ text ++ right) := by
  have := length_le_byteLength text
  have := List.length_pos_iff.mpr hn
  rw [byteLength_append, byteLength_append]
  omega

theorem byteLength_eq_length_iff : byteLength cs = cs.length ↔ ∀ c ∈ cs, c.utf8Size = 1 := by
  induction cs with
  | nil => simp
  | cons c cs ih =>
    have := c.utf8Size_pos
    have := length_le_byteLength cs
    rw [List.forall_mem_cons, ← ih, byteLength_cons, List.length_cons]
    omega

theorem byteLength_indent (h : ∀ c ∈ cs, Line.isIndent c = true) : byteLength cs = cs.length := by
  rw [byteLength_eq_length_iff]
  intro c hc
  rcases isIndent_iff.mp (h c hc) with rfl | rfl <;> rfl

end Stripping

namespace Line

variable {line : Line}

theorem not_mem_label {c : Char} (hd : c.isDigit = false) (hs : c ≠ ' ') (hb : c ≠ '|') :
    c ∉ line.label := by
  intro hc
  rcases List.mem_append.mp hc with h | h
  · rw [Nat.toString_eq_repr, Nat.toList_repr] at h
    have := Nat.isDigit_of_mem_toDigits (by decide) (by decide) h
    rw [hd] at this
    cases this
  · simp [hs, hb] at h

def lead (line : Line) (dashes : Nat) : List Char :=
  List.replicate ((toString line.number).length + 1) ' ' ++ ['|', ' '] ++ List.replicate dashes '-'

theorem length_lead (line : Line) (dashes : Nat) :
    (line.lead dashes).length = line.label.length + dashes := by
  simp only [lead, label, List.length_append, List.length_replicate, String.length_toList,
    List.length_cons, List.length_nil]

theorem not_mem_lead {c : Char} {dashes : Nat} (hs : c ≠ ' ') (hb : c ≠ '|') (hd : c ≠ '-') :
    c ∉ line.lead dashes := by
  simp [lead, List.mem_replicate, hs, hb, hd]

theorem strip_isIndent {indent middle trailing : List Char}
    (he : line.text = indent ++ middle ++ trailing) (hn : middle ≠ [])
    (hi : ∀ c ∈ indent, isIndent c = true) (hh : ∀ c ∈ middle.head?, isIndent c = false) :
    line.text.takeWhile isIndent = indent ∧
      line.text.dropWhile isIndent = middle ++ trailing := by
  have hm : ∀ c ∈ (middle ++ trailing).head?, isIndent c = false := by
    cases middle with
    | nil => exact absurd rfl hn
    | cons c cs => exact hh
  rw [he, List.append_assoc]
  exact ⟨takeWhile_append_of_head? hi hm, dropWhile_append_of_head? hi hm⟩

theorem toList_render {indent middle trailing : List Char}
    (he : line.text = indent ++ middle ++ trailing) (hn : middle ≠ [])
    (hi : ∀ c ∈ indent, isIndent c = true) (hh : ∀ c ∈ middle.head?, isIndent c = false)
    (ht : ∀ c ∈ trailing, isBlank c = true) (hl : ∀ c ∈ middle.getLast?, isBlank c = false) :
    ∃ above, above.getLast? = some '\n' ∧ line.render.toList =
      above ++ (line.label ++ middle) ++ '\n' :: line.lead (line.column - indent.length) ++
        ['^', '\n'] := by
  obtain ⟨htake, hdrop⟩ := strip_isIndent he hn hi hh
  refine ⟨List.replicate ((toString line.number).length + 1) ' ' ++ ['|', '\n'], ?_, ?_⟩
  · simp
  · simp [render, htake, hdrop, trimEnd_append hl ht, label, lead]

theorem Stands.exists_split {first place : Nat} {before after left text right : List Char}
    (h : line.Stands first before after place)
    (he : before ++ line.text ++ after = left ++ text ++ right) (hp : byteLength left = place)
    (ht : '\n' ∉ text) :
    ∃ pre post, left = before ++ pre ∧ line.text = pre ++ text ++ post ∧
      byteLength pre = line.column := by
  have hplace := h.place_eq
  have hcolumn := h.column_lt
  rw [List.append_assoc, List.append_assoc] at he
  obtain ⟨pre, rfl, hpre⟩ := exists_append_of_byteLength_le he (by omega)
  rw [byteLength_append] at hp
  obtain ⟨rest, hrest, hafter⟩ := exists_append_of_byteLength_le hpre.symm (by omega)
  rcases Nat.lt_or_ge (byteLength rest) (byteLength text) with hlt | hle
  · obtain ⟨more, rfl, rfl⟩ := exists_append_of_byteLength_le hafter.symm (Nat.le_of_lt hlt)
    exfalso
    -- The line would end before the text does, with the newline inside the text.
    have hm : more ≠ [] := by
      rintro rfl
      simp at hlt
    have hr : rest ≠ [] := by
      rintro rfl
      rw [List.append_nil] at hrest
      rw [hrest] at hcolumn
      omega
    have hl := h.ends (List.append_ne_nil_of_left_ne_nil hm _)
    rw [hrest] at hl
    exact ht (List.mem_append_left _ (mem_of_getLast?_append hl hr))
  · obtain ⟨post, rfl, -⟩ := exists_append_of_byteLength_le hafter hle
    exact ⟨pre, post, rfl, by rw [hrest, List.append_assoc], by omega⟩

theorem Stands.not_mem_middle {first place : Nat} {before after indent middle trailing : List Char}
    (h : line.Stands first before after place) (he : line.text = indent ++ middle ++ trailing)
    (hn : middle ≠ []) (hl : ∀ c ∈ middle.getLast?, isBlank c = false) : '\n' ∉ middle := by
  have hm := List.dropLast_concat_getLast hn
  have hlast := hl _ (List.getLast?_eq_some_getLast hn)
  generalize middle.getLast hn = last at hm hlast
  have hsplit : line.text = indent ++ middle.dropLast ++ (last :: trailing) := by
    rw [he, ← hm]
    simp
  have hi := h.not_mem_of_append hsplit (List.cons_ne_nil _ _)
  rw [← hm]
  simp only [List.mem_append, List.mem_singleton, not_or] at hi ⊢
  refine ⟨hi.2, ?_⟩
  rintro rfl
  exact absurd hlast (by decide)

/-- The quoted line counts the characters before the text at a place, and the marker
counts their bytes. -/
theorem Stands.exists_shows {before after pre text post : List Char} {place : Nat}
    (h : line.Stands 1 before after place) (he : line.text = pre ++ text ++ post)
    (hc : byteLength pre = line.column) (hn : text ≠ []) (ht : ∀ c ∈ text, isBlank c = false) :
    ∃ column quoted above dashes, line.Shows text quoted column ∧ '\n' ∉ quoted ∧
      above.getLast? = some '\n' ∧
      line.render.toList = above ++ quoted ++ '\n' :: line.lead dashes ++ ['^', '\n'] ∧
      (line.lead dashes).length + pre.length = column + byteLength pre := by
  obtain ⟨indent, front, rfl, hindent, hfront⟩ := exists_run isIndent pre
  obtain ⟨back, trailing, rfl, htrailing, hback⟩ := exists_trailing post
  have he : line.text = indent ++ (front ++ text ++ back) ++ trailing := by simpa using he
  have hmiddle : front ++ text ++ back ≠ [] := by simp [hn]
  have hhead : ∀ c ∈ (front ++ text ++ back).head?, isIndent c = false := by
    cases front with
    | nil =>
      cases text with
      | nil => exact absurd rfl hn
      | cons c cs =>
        rintro _ ⟨⟩
        exact isIndent_eq_false (ht c List.mem_cons_self)
    | cons c cs => exact hfront
  have hlast : ∀ c ∈ (front ++ text ++ back).getLast?, isBlank c = false := by
    intro c hc
    cases back with
    | nil =>
      rw [List.append_nil] at hc
      exact ht c (mem_of_getLast?_append hc hn)
    | cons d ds => exact hback c (by simpa [List.getLast?_append] using hc)
  obtain ⟨above, habove, hrender⟩ := toList_render he hmiddle hindent hhead htrailing hlast
  refine ⟨_, _, above, _, .intro he hc hindent hhead htrailing hlast, ?_, habove, hrender, ?_⟩
  · rw [List.mem_append, not_or]
    exact ⟨not_mem_label rfl (by decide) (by decide), h.not_mem_middle he hmiddle hlast⟩
  · have hb := byteLength_indent hindent
    rw [byteLength_append] at hc
    simp only [length_lead, List.length_append, byteLength_append]
    omega

end Line

theorem marks_excerpt {source : String} {offset : UInt32} {left text right : List Char}
    (hs : source.toList = left ++ text ++ right) (ho : byteLength left = offset.toNat)
    (hn : text ≠ []) (ht : ∀ c ∈ text, isBlank c = false) (file headline : String) :
    ∃ column caret, Marks source.toList offset.toNat text column caret
        (excerpt source file offset headline).toList ∧
      caret + (lastLine left).length = column + byteLength (lastLine left) := by
  have hlt : ¬ byteLength source.toList ≤ offset.toNat := by
    rw [hs, ← ho]
    exact Nat.not_le.mpr (byteLength_lt_of_append hn)
  obtain ⟨line, hf⟩ : ∃ line, Line.find? source offset = some line :=
    Option.ne_none_iff_exists'.mp (mt Line.find?_eq_none_iff.mp hlt)
  obtain ⟨before, after, he, hstands⟩ := Line.stands_of_find? hf
  have hnewline : '\n' ∉ text := fun hm => absurd (ht _ hm) (by decide)
  obtain ⟨pre, post, rfl, htext, hcolumn⟩ :=
    hstands.exists_split (he.symm.trans hs) ho hnewline
  have hpre : '\n' ∉ pre := by
    rw [List.append_assoc] at htext
    exact hstands.not_mem_of_append htext (List.append_ne_nil_of_left_ne_nil hn _)
  obtain ⟨column, quoted, above, dashes, hshows, hquoted, habove, hrender, hcaret⟩ :=
    hstands.exists_shows htext hcolumn hn ht
  rw [lastLine_append hstands.begins hpre]
  refine ⟨column, _, ?_, hcaret⟩
  have hexcerpt : (excerpt source file offset headline).toList =
      ((headline ++ "\n-> " ++ file ++ "\n").toList ++ above) ++ quoted ++
        '\n' :: line.lead dashes ++ ['^', '\n'] := by
    simp [excerpt, hf, hrender]
  rw [hexcerpt]
  refine .intro he hstands hshows ?_ hquoted ?_ ?_ rfl
  · rw [List.getLast?_append, habove]
    rfl
  · exact Line.not_mem_lead (by decide) (by decide) (by decide)
  · exact Line.not_mem_lead (by decide) (by decide) (by decide)

/-! ## The columns of a report -/

section Columns

variable {line : Line} {source text quoted quoted' report report' : List Char}
  {place column column' caret caret' : Nat}

theorem Line.Shows.column_eq (h : line.Shows text quoted column)
    (h' : line.Shows text quoted' column') (hn : text ≠ []) : column = column' := by
  cases h with
  | @intro indent front back trailing he hc hi hh _ _ =>
  cases h' with
  | @intro indent' front' back' trailing' he' hc' hi' hh' _ _ =>
  obtain rfl : indent = indent' := by
    rw [← (strip_isIndent he (by simp [hn]) hi hh).1, (strip_isIndent he' (by simp [hn]) hi' hh').1]
  rw [byteLength_append] at hc hc'
  have hf : front ++ (text ++ (back ++ trailing)) = front' ++ (text ++ (back' ++ trailing')) := by
    simpa using he.symm.trans he'
  obtain ⟨between, rfl, -⟩ := exists_append_of_byteLength_le hf (by omega)
  have := length_le_byteLength between
  rw [byteLength_append] at hc'
  simp only [List.length_append]
  omega

theorem Marks.column_eq (h : Marks source place text column caret report)
    (h' : Marks source place text column' caret' report') (hn : text ≠ []) : column = column' := by
  obtain ⟨he, hstands, hshows, -, -, -, -, -⟩ := h
  obtain ⟨he', hstands', hshows', -, -, -, -, -⟩ := h'
  obtain rfl := hstands.eq hstands' (he.symm.trans he')
  exact hshows.column_eq hshows' hn

theorem Marks.length_lastLine (h : Marks source place text column caret report) :
    (lastLine report.dropLast).length = caret + 1 := by
  cases h with
  | @intro line before after above quoted lead _ _ _ _ _ hlead _ hcaret =>
  have hsplit : above ++ quoted ++ '\n' :: lead ++ ['^', '\n'] =
      (above ++ quoted ++ ['\n']) ++ (lead ++ ['^']) ++ ['\n'] := by
    simp
  have hnot : '\n' ∉ lead ++ ['^'] := by
    simpa using hlead
  rw [hsplit, List.dropLast_concat, lastLine_append (.inr (by simp)) hnot, List.length_append,
    hcaret]
  rfl

theorem Marks.caret_eq (h : Marks source place text column caret report)
    (h' : Marks source place text column' caret' report) : caret = caret' := by
  have := h.length_lastLine
  have := h'.length_lastLine
  omega

end Columns

section Excerpt

variable {source : String} {offset : UInt32} {left right : List Char} {c : Char}

/-- The marker of an excerpt stands below its text exactly when all characters before
it on the line take one byte. -/
theorem marks_same_iff {text : List Char} (hs : source.toList = left ++ text ++ right)
    (ho : byteLength left = offset.toNat) (hn : text ≠ []) (ht : ∀ c ∈ text, isBlank c = false)
    (file headline : String) :
    (∃ column, Marks source.toList offset.toNat text column column
        (excerpt source file offset headline).toList) ↔
      ∀ d ∈ lastLine left, d.utf8Size = 1 := by
  obtain ⟨column, caret, hmarks, hcaret⟩ := marks_excerpt hs ho hn ht file headline
  rw [← byteLength_eq_length_iff]
  constructor
  · rintro ⟨both, hboth⟩
    have := hmarks.caret_eq hboth
    have := hmarks.column_eq hboth hn
    omega
  · intro hb
    obtain rfl : caret = column := by omega
    exact ⟨caret, hmarks⟩

/-- An excerpt quotes the line of the character at a place and has a caret below it.
The two are in the same column exactly when all characters before that one on its
line take one byte. Otherwise the caret stands too far behind, by the bytes that
these characters take beyond one each. -/
theorem caret_under_iff (hs : source.toList = left ++ [c] ++ right)
    (ho : byteLength left = offset.toNat) (hc : isBlank c = false) (file headline : String) :
    (∃ column caret, Marks source.toList offset.toNat [c] column caret
        (excerpt source file offset headline).toList ∧
      caret + (lastLine left).length = column + byteLength (lastLine left)) ∧
    ((∃ column, Marks source.toList offset.toNat [c] column column
        (excerpt source file offset headline).toList) ↔
      ∀ d ∈ lastLine left, d.utf8Size = 1) := by
  have hn : [c] ≠ [] := List.cons_ne_nil c []
  have ht : ∀ d ∈ [c], isBlank d = false := List.forall_mem_singleton.mpr hc
  exact ⟨marks_excerpt hs ho hn ht file headline, marks_same_iff hs ho hn ht file headline⟩

end Excerpt

/-- Characters of more than one byte on another line do not count. -/
theorem caret_under_iff_indented :
    ∃ source left right, source = "/* \u00e9 */\n\t width: Foo;" ∧
      source.toList = left ++ ['F'] ++ right ∧ byteLength left = (18 : UInt32).toNat ∧
      isBlank 'F' = false ∧
      ∃ column, Marks source.toList (18 : UInt32).toNat ['F'] column column
        (excerpt source "a" 18 "b").toList := by
  let source := "/* \u00e9 */\n\t width: Foo;"
  have hs : source.toList = "/* \u00e9 */\n\t width: ".toList ++ ['F'] ++ "oo;".toList := by
    decide +kernel
  have ho : byteLength "/* \u00e9 */\n\t width: ".toList = (18 : UInt32).toNat := by
    decide +kernel
  have hb : ∀ d ∈ lastLine "/* \u00e9 */\n\t width: ".toList, d.utf8Size = 1 :=
    byteLength_eq_length_iff.mp (by decide +kernel)
  exact ⟨source, _, _, rfl, hs, ho, rfl, (caret_under_iff hs ho rfl "a" "b").2.mpr hb⟩

/-- Behind a character of two bytes the caret stands one column too far. -/
theorem caret_not_under :
    ∃ source left right, source = "\u00e9 p" ∧ source.toList = left ++ ['p'] ++ right ∧
      byteLength left = (3 : UInt32).toNat ∧ isBlank 'p' = false ∧
      ¬ ∃ column, Marks source.toList (3 : UInt32).toNat ['p'] column column
        (excerpt source "test.icss" 3 "ERROR: oops").toList := by
  let source := "\u00e9 p"
  have hs : source.toList = ['\u00e9', ' '] ++ ['p'] ++ [] := by decide +kernel
  have hn : ['p'] ≠ [] := List.cons_ne_nil _ _
  have hb : ¬ ∀ d ∈ lastLine ['\u00e9', ' '], d.utf8Size = 1 :=
    mt byteLength_eq_length_iff.mpr (by decide +kernel)
  refine ⟨source, _, _, rfl, hs, rfl, rfl, ?_⟩
  rwa [marks_same_iff hs rfl hn (List.forall_mem_singleton.mpr rfl)]

end Stylesheet
