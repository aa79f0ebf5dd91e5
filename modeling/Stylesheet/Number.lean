/-! # Numbers

Quantities are 64-bit signed numbers. Arithmetic is exact: a result that does
not fit is no number, and nothing wraps.
-/

namespace Stylesheet

abbrev Number := Int64

namespace Number

def least : Int := -9223372036854775808

def greatest : Int := 9223372036854775807

/-- The number of an exact value, if it fits. -/
def ofInt? (n : Int) : Option Number :=
  if least ≤ n ∧ n ≤ greatest then some (Int64.ofInt n) else none

theorem least_le_toInt (v : Number) : least ≤ v.toInt := v.le_toInt

theorem toInt_le_greatest (v : Number) : v.toInt ≤ greatest := Int.le_of_lt_add_one v.toInt_lt

theorem ofInt?_eq_some_iff {n : Int} {v : Number} : ofInt? n = some v ↔ v.toInt = n := by
  unfold ofInt?
  constructor
  · intro h
    split at h
    · next hn =>
      rw [← Option.some.inj h, Int64.toInt_ofInt_of_le hn.1 (Int.lt_add_one_of_le hn.2)]
    · simp at h
  · rintro rfl
    rw [if_pos ⟨least_le_toInt v, toInt_le_greatest v⟩, Int64.ofInt_toInt]

theorem ofInt?_eq_none_iff {n : Int} : ofInt? n = none ↔ n < least ∨ greatest < n := by
  unfold ofInt?
  split
  · next h => simp only [reduceCtorEq, false_iff]; omega
  · next h => simp only [true_iff]; omega

/-- The value of a run of decimal digits; nothing for no digit or another
character. -/
def digits? (cs : List Char) : Option Nat :=
  if cs ≠ [] ∧ cs.all Char.isDigit then some (Nat.ofDigitChars 10 cs 0) else none

/-- Read a decimal number: at most one sign, then digits. -/
def parse? : List Char → Option Number
  | '-' :: cs => (digits? cs).bind fun n => ofInt? (-n)
  | '+' :: cs => (digits? cs).bind fun n => ofInt? n
  | cs => (digits? cs).bind fun n => ofInt? n

/-- A text of digits in base ten, and their value. -/
def IsDecimal (digits : List Char) (n : Nat) : Prop :=
  digits ≠ [] ∧ (∀ d ∈ digits, d.isDigit = true) ∧ n = Nat.ofDigitChars 10 digits 0

/-- A text writes a number with digits, before which one sign may stand. Digits of a
value out of range write none. -/
inductive Writes : List Char → Number → Prop where

  | unsigned {digits : List Char} {n : Nat} {value : Number} : IsDecimal digits n →
      value.toInt = n → Writes digits value

  | plus {digits : List Char} {n : Nat} {value : Number} : IsDecimal digits n →
      value.toInt = n → Writes ('+' :: digits) value

  | minus {digits : List Char} {n : Nat} {value : Number} : IsDecimal digits n →
      value.toInt = -n → Writes ('-' :: digits) value

theorem digits?_eq_some_iff {cs : List Char} {n : Nat} : digits? cs = some n ↔ IsDecimal cs n := by
  unfold digits? IsDecimal
  rw [← List.all_eq_true]
  split
  · next h => simp [h, eq_comm]
  · next h =>
    simp only [reduceCtorEq, false_iff]
    exact fun hd => h ⟨hd.1, hd.2.1⟩

theorem parse?_eq_some_iff {cs : List Char} {value : Number} :
    parse? cs = some value ↔ Writes cs value := by
  constructor
  · intro h
    unfold parse? at h
    split at h
    all_goals
      obtain ⟨n, hd, hv⟩ := Option.bind_eq_some_iff.mp h
      rw [digits?_eq_some_iff] at hd
      rw [ofInt?_eq_some_iff] at hv
    · exact .minus hd hv
    · exact .plus hd hv
    · exact .unsigned hd hv
  · intro h
    cases h with
    | unsigned hd hv =>
      have hp : parse? cs = (digits? cs).bind fun n => ofInt? n := by
        unfold parse?
        split
        · exact absurd (hd.2.1 '-' (by simp)) (by decide)
        · exact absurd (hd.2.1 '+' (by simp)) (by decide)
        · rfl
      rw [hp, digits?_eq_some_iff.mpr hd, Option.bind_some, ofInt?_eq_some_iff, hv]
    | plus hd hv | minus hd hv =>
      rw [parse?, digits?_eq_some_iff.mpr hd, Option.bind_some, ofInt?_eq_some_iff, hv]

def render (v : Number) : List Char :=
  if v.toInt < 0 then '-' :: Nat.toDigits 10 v.toInt.natAbs else Nat.toDigits 10 v.toInt.natAbs

theorem isDecimal_toDigits (n : Nat) : IsDecimal (Nat.toDigits 10 n) n :=
  ⟨Nat.toDigits_ne_nil, fun _ => Nat.isDigit_of_mem_toDigits (by decide) (by decide),
    (Nat.ofDigitChars_toDigits (by decide) (by decide)).symm⟩

end Number

end Stylesheet
