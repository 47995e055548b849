import ClosureLang.Proofs.Scanning.Lemmas.Words
import ClosureLang.Session

/-!
# Numerals

Texts of digits, the integers they denote, and the texts of integers.
-/

namespace ClosureLang

/-- A text of digits, one at least. Zeros may stand in front. -/
structure IsNumeral (text : String) : Prop where
  ne_empty : text ≠ ""
  digits : ∀ c ∈ text.toList, c.isDigit = true

/-- The number that a numeral denotes. -/
def decimal (text : String) : Nat :=
  Nat.ofDigitChars 10 text.toList 0

/-- In every session the source is a program, and its value is the integer. -/
def EvaluatesTo (source : String) (word : Int64) : Prop :=
  ∀ depth session, ∃ id after,
    Session.run? depth session source = some (.value (some (.integer id word)), after)

theorem IsNumeral.spells {text : String} (h : IsNumeral text) : Spells .integer text := by
  match htext : text.toList with
  | [] => exact absurd (String.toList_eq_nil_iff.mp htext) h.ne_empty
  | c :: tail =>
      obtain ⟨hc, htail⟩ := List.forall_mem_cons.mp (htext ▸ h.digits)
      refine ⟨c, tail, htext, runOf_digits.not_blank hc, ?_⟩
      rw [runOf_digits.lexeme_eq hc, List.takeWhile_eq_self_iff.mpr htail]

/-! ## The texts of integers -/

theorem isNumeral_toString (n : Nat) : IsNumeral (toString n) := by
  refine ⟨?_, fun c hc => ?_⟩
  · intro hempty
    have hnil : Nat.toDigits 10 n = [] := by
      rw [← Nat.toList_repr]
      exact congrArg String.toList hempty
    exact absurd hnil Nat.toDigits_ne_nil
  · exact Nat.isDigit_of_mem_toDigits (by decide) (by decide) (Nat.toList_repr ▸ hc)

theorem decimal_toString (n : Nat) : decimal (toString n) = n := by
  have hdigits : (toString n).toList = Nat.toDigits 10 n := Nat.toList_repr
  rw [decimal, hdigits, Nat.ofDigitChars_ten_toDigits]

/-- The text of an integer is a numeral, behind a minus sign if the integer is negative. -/
theorem Integer.text_eq (word : Int64) : Integer.text word =
    if 0 ≤ word.toInt then toString word.toInt.natAbs else "-" ++ toString word.toInt.natAbs := by
  rw [Integer.text]
  cases word.toInt with
  | ofNat n => rfl
  | negSucc n => rfl

end ClosureLang
