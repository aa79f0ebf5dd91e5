/-! # Patterns

A pattern recognises a lexeme at the start of a text. Runs take every
character they can, so a pattern recognises at most one lexeme. The lexeme and
what follows it make up the text, and a pattern that consumes never recognises
the empty lexeme.
-/

namespace Stylesheet

inductive Pattern where
  /-- Exactly these characters. -/
  | word (text : List Char)
  /-- One character of a class. -/
  | among (p : Char → Bool)
  /-- All the characters of a class that follow, maybe none. -/
  | run (p : Char → Bool)
  /-- Everything through the first occurrence of these characters. -/
  | through (mark : List Char)
  /-- One pattern and then another. -/
  | seq (first second : Pattern)

namespace Pattern

def runOf (p : Char → Bool) : Pattern := seq (among p) (run p)

/-- Cut a text behind the first occurrence of `mark`. -/
def cutThrough? (mark : List Char) : List Char → Option (List Char × List Char)
  | [] => if mark.isEmpty then some ([], []) else none
  | c :: cs =>
    if mark.isPrefixOf (c :: cs) then some (mark, (c :: cs).drop mark.length)
    else (cutThrough? mark cs).map fun (lexeme, rest) => (c :: lexeme, rest)

/-- The lexeme at the start of a text, and what follows it. -/
def split? : Pattern → List Char → Option (List Char × List Char)
  | word text, cs => if text.isPrefixOf cs then some (text, cs.drop text.length) else none
  | among _, [] => none
  | among p, c :: cs => if p c then some ([c], cs) else none
  | run p, cs => some (cs.takeWhile p, cs.dropWhile p)
  | through mark, cs => cutThrough? mark cs
  | seq a b, cs =>
    (a.split? cs).bind fun (first, rest) =>
      (b.split? rest).map fun (second, rest') => (first ++ second, rest')

def consumes : Pattern → Bool
  | word text => !text.isEmpty
  | among _ => true
  | run _ => false
  | through mark => !mark.isEmpty
  | seq a b => a.consumes || b.consumes

private theorem append_drop_of_isPrefixOf {s cs : List Char} (h : s.isPrefixOf cs = true) :
    s ++ cs.drop s.length = cs := by
  obtain ⟨t, rfl⟩ := List.isPrefixOf_iff_prefix.mp h
  simp

theorem append_of_cutThrough? {mark cs lexeme rest : List Char}
    (h : cutThrough? mark cs = some (lexeme, rest)) : lexeme ++ rest = cs := by
  induction cs generalizing lexeme with
  | nil =>
    simp only [cutThrough?] at h
    split at h <;> simp_all
  | cons c cs ih =>
    simp only [cutThrough?] at h
    split at h
    · next hp =>
      obtain ⟨rfl, rfl⟩ := by simpa using h
      exact append_drop_of_isPrefixOf hp
    · obtain ⟨⟨l, r⟩, hl, he⟩ := Option.map_eq_some_iff.mp h
      obtain ⟨rfl, rfl⟩ := by simpa using he
      simp [ih hl]

theorem append_of_split? {p : Pattern} {cs lexeme rest : List Char}
    (h : p.split? cs = some (lexeme, rest)) : lexeme ++ rest = cs := by
  induction p generalizing cs lexeme rest with
  | word text =>
    simp only [split?] at h
    split at h
    · next hp =>
      obtain ⟨rfl, rfl⟩ := by simpa using h
      exact append_drop_of_isPrefixOf hp
    · simp at h
  | among p =>
    cases cs with
    | nil => simp [split?] at h
    | cons c cs =>
      simp only [split?] at h
      split at h
      · obtain ⟨rfl, rfl⟩ := by simpa using h
        rfl
      · simp at h
  | run p =>
    obtain ⟨rfl, rfl⟩ := by simpa [split?] using h
    exact List.takeWhile_append_dropWhile
  | through mark => exact append_of_cutThrough? h
  | seq a b iha ihb =>
    obtain ⟨⟨l, r⟩, ha, h⟩ := Option.bind_eq_some_iff.mp h
    obtain ⟨⟨l', r'⟩, hb, h⟩ := Option.map_eq_some_iff.mp h
    obtain ⟨rfl, rfl⟩ := by simpa using h
    rw [List.append_assoc, ihb hb, iha ha]

theorem ne_nil_of_cutThrough? {mark cs lexeme rest : List Char} (hm : mark ≠ [])
    (h : cutThrough? mark cs = some (lexeme, rest)) : lexeme ≠ [] := by
  cases cs with
  | nil => simp [cutThrough?, hm] at h
  | cons c cs =>
    simp only [cutThrough?] at h
    split at h
    · obtain ⟨rfl, rfl⟩ := by simpa using h
      exact hm
    · obtain ⟨⟨l, r⟩, _, he⟩ := Option.map_eq_some_iff.mp h
      obtain ⟨rfl, rfl⟩ := by simpa using he
      simp

theorem ne_nil_of_split? {p : Pattern} {cs lexeme rest : List Char} (hp : p.consumes = true)
    (h : p.split? cs = some (lexeme, rest)) : lexeme ≠ [] := by
  induction p generalizing cs lexeme rest with
  | word text =>
    simp only [split?] at h
    split at h
    · obtain ⟨rfl, rfl⟩ := by simpa using h
      simpa [consumes] using hp
    · simp at h
  | among p =>
    cases cs with
    | nil => simp [split?] at h
    | cons c cs =>
      simp only [split?] at h
      split at h
      · obtain ⟨rfl, rfl⟩ := by simpa using h
        simp
      · simp at h
  | run p => simp [consumes] at hp
  | through mark => exact ne_nil_of_cutThrough? (by simpa [consumes] using hp) h
  | seq a b iha ihb =>
    obtain ⟨⟨l, r⟩, ha, h⟩ := Option.bind_eq_some_iff.mp h
    obtain ⟨⟨l', r'⟩, hb, h⟩ := Option.map_eq_some_iff.mp h
    obtain ⟨rfl, rfl⟩ := by simpa using h
    rcases Bool.or_eq_true _ _ ▸ hp with hp | hp
    · simp [iha hp ha]
    · simp [ihb hp hb]

theorem length_lt_of_split? {p : Pattern} {cs lexeme rest : List Char} (hp : p.consumes = true)
    (h : p.split? cs = some (lexeme, rest)) : rest.length < cs.length := by
  have hl := List.length_pos_iff.mpr (ne_nil_of_split? hp h)
  rw [← append_of_split? h, List.length_append]
  omega

end Pattern

end Stylesheet
