/-!
# Integers

The integers of the language are 64-bit signed words. Results are worked out in `Int` and then have
to be in range, so that nothing ever wraps.
-/

namespace ClosureLang.Integer

/-- The word of a given value, if there is one. -/
def ofInt? (value : Int) : Option Int64 :=
  if Int64.minValue.toInt ≤ value ∧ value ≤ Int64.maxValue.toInt then some (Int64.ofInt value)
  else none

/-- The word that a decimal numeral denotes, if there is one. -/
def ofDigits? (digits : String) : Option Int64 :=
  ofInt? (Nat.ofDigitChars 10 digits.toList 0)

/-- The decimal text of a word, with a minus sign if it is negative. -/
def text (word : Int64) : String :=
  toString word.toInt

theorem ofInt?_eq_some_iff {value : Int} {word : Int64} :
    ofInt? value = some word ↔ word.toInt = value := by
  unfold ofInt?
  constructor
  · intro h
    split at h
    · next range =>
      cases h
      exact Int64.toInt_ofInt_of_le range.1 (Int.lt_add_one_of_le range.2)
    · cases h
  · rintro rfl
    rw [if_pos ⟨Int64.le_toInt word, Int.le_of_lt_add_one (Int64.toInt_lt word)⟩, Int64.ofInt_toInt]

theorem ofInt?_eq_none_iff {value : Int} :
    ofInt? value = none ↔ value < Int64.minValue.toInt ∨ Int64.maxValue.toInt < value := by
  unfold ofInt?
  split <;> simp only [reduceCtorEq, false_iff, true_iff] <;> omega

end ClosureLang.Integer
