import ClosureLang.Proofs.Numerals.Lemmas.Literals
import ClosureLang.Proofs.Numerals.Numeral
import Mathlib.Algebra.Ring.Int.Defs
import Mathlib.Algebra.Ring.Nat

/-!
# Numerals and integers agree
-/

namespace ClosureLang

open Grammar

variable {digits : String}

theorem IsNumeral.evaluates (h : IsNumeral digits) {word : Int64}
    (hword : word.toInt = decimal digits) :
    (parse digits).errors = [] ∧ EvaluatesTo digits word := by
  have hderives : Derives [⟨.integer, digits, ⟨0, digits.utf8ByteSize⟩⟩] _ :=
    derives_integer rfl hword
  rw [← h.spells.scan_eq] at hderives
  obtain ⟨herrors, hprogram⟩ := parse_eq_of_derives hderives
  exact ⟨herrors, Session.run?_exact herrors hprogram rfl (Expr.firstOffence?_integer _ _) rfl⟩

theorem IsNumeral.negated_evaluates (h : IsNumeral digits) {word value : Int64}
    (hword : word.toInt = decimal digits) (hvalue : value.toInt = -word.toInt) :
    (parse ("-" ++ digits)).errors = [] ∧ EvaluatesTo ("-" ++ digits) value := by
  have hderives : Derives
      [⟨.minus, "-", ⟨0, 1⟩⟩, ⟨.integer, digits, ⟨1, 1 + digits.utf8ByteSize⟩⟩] _ :=
    derives_negated rfl rfl hword
  rw [← h.spells.scan_negated] at hderives
  obtain ⟨herrors, hprogram⟩ := parse_eq_of_derives hderives
  refine ⟨herrors, Session.run?_exact herrors hprogram rfl ?_ ?_⟩
  · have hexact : (Expr.prefixed ⟨.minus, "-", ⟨0, 1⟩⟩ .negate
        (.integer ⟨.integer, digits, ⟨1, 1 + digits.utf8ByteSize⟩⟩ word)).toInt? =
        some value.toInt := by rw [hvalue]; rfl
    rw [Expr.firstOffence?_prefixed, Expr.firstOffence?_integer, Expr.fits_eq_of_exact hexact,
      Integer.ofInt?_eq_some_iff.mpr rfl]
    rfl
  · rw [hvalue]
    rfl

theorem IsNumeral.overlong (h : IsNumeral digits) (hlarge : 2 ^ 63 - 1 < decimal digits) :
    (parse digits).program.statements = [] ∧ (parse digits).errors =
      [⟨⟨.integer, digits, ⟨0, digits.utf8ByteSize⟩⟩, .outOfRange⟩] := by
  have hmax : Int64.maxValue.toInt = 2 ^ 63 - 1 := by decide
  have hnone : Integer.ofInt? (decimal digits) = none :=
    Integer.ofInt?_eq_none_iff.mpr (.inr (by omega))
  exact parse_overlong h.spells.scan_eq rfl hnone

/-- What is at most the largest integer is one. -/
theorem exists_word {n : Nat} (h : n ≤ 2 ^ 63 - 1) : ∃ word : Int64, word.toInt = n := by
  have hsome : (Integer.ofInt? n).isSome = true := Integer.ofInt?_isSome_iff.mpr (by omega)
  obtain ⟨word, hword⟩ := Option.isSome_iff_exists.mp hsome
  exact ⟨word, Integer.ofInt?_eq_some_iff.mp hword⟩

theorem natAbs_le_of_ne_minValue {word : Int64} (h : word ≠ Int64.minValue) :
    word.toInt.natAbs ≤ 2 ^ 63 - 1 := by
  have hmin : Int64.minValue.toInt = -2 ^ 63 := by decide
  have hne : word.toInt ≠ -2 ^ 63 := fun heq => h (Int64.toInt_inj.mp (heq.trans hmin.symm))
  have hge := Int64.le_toInt word
  have hlt := Int64.toInt_lt word
  omega

theorem text_evaluates {word : Int64} (h : word ≠ Int64.minValue) :
    (parse (Integer.text word)).errors = [] ∧ EvaluatesTo (Integer.text word) word := by
  have hnumeral := isNumeral_toString word.toInt.natAbs
  have hdecimal := decimal_toString word.toInt.natAbs
  rw [Integer.text_eq]
  split
  · next hpos => exact hnumeral.evaluates (by rw [hdecimal, Int.natAbs_of_nonneg hpos])
  · next hneg =>
    obtain ⟨opposite, hopposite⟩ := exists_word (natAbs_le_of_ne_minValue h)
    exact hnumeral.negated_evaluates (by rw [hdecimal, hopposite]) (by omega)

/-- A numeral is a source without syntax errors exactly if it denotes an integer of 64 bits, which
is then its value. Otherwise the whole of it is blamed, once, and it leaves no statement. The text
of an integer is a source with that value, for all integers but the least, whose text is not a
program. -/
theorem numerals_and_integers_agree :
    (∀ digits, IsNumeral digits →
      ((parse digits).errors = [] ↔ decimal digits ≤ 2 ^ 63 - 1) ∧
      (decimal digits ≤ 2 ^ 63 - 1 →
        ∃ word : Int64, word.toInt = decimal digits ∧ EvaluatesTo digits word) ∧
      (2 ^ 63 - 1 < decimal digits → (parse digits).program.statements = [] ∧
        (parse digits).errors =
          [⟨⟨.integer, digits, ⟨0, digits.utf8ByteSize⟩⟩, .outOfRange⟩])) ∧
    (∀ id word, word ≠ Int64.minValue →
      (parse (Object.integer id word).inspect).errors = [] ∧
        EvaluatesTo (Object.integer id word).inspect word) ∧
    ∀ id, (parse (Object.integer id Int64.minValue).inspect).errors ≠ [] := by
  refine ⟨fun digits h => ?_, fun _ _ => text_evaluates, fun id => ?_⟩
  · have hsmall (hle : decimal digits ≤ 2 ^ 63 - 1) : (parse digits).errors = [] ∧
        ∃ word : Int64, word.toInt = decimal digits ∧ EvaluatesTo digits word := by
      obtain ⟨word, hword⟩ := exists_word hle
      obtain ⟨herrors, hvalue⟩ := h.evaluates hword
      exact ⟨herrors, word, hword, hvalue⟩
    refine ⟨⟨fun herrors => ?_, fun hle => (hsmall hle).1⟩, fun hle => (hsmall hle).2, h.overlong⟩
    refine Nat.le_of_not_lt fun hlarge => ?_
    rw [(h.overlong hlarge).2] at herrors
    cases herrors
  · have hmin : (Object.integer id Int64.minValue).inspect = "-9223372036854775808" := by
      change Integer.text Int64.minValue = _
      decide +kernel
    rw [hmin]
    decide +kernel

/-- Seven with two zeros in front, the least numeral that is too large, and minus one. -/
theorem padded_and_past_largest_numerals :
    EvaluatesTo "007" 7 ∧
      (parse "9223372036854775808").errors =
        [⟨⟨.integer, "9223372036854775808", ⟨0, 19⟩⟩, .outOfRange⟩] ∧
      EvaluatesTo "-1" (-1) := by
  have hseven : IsNumeral "007" := ⟨by decide, List.all_eq_true.mp (by decide +kernel)⟩
  have hlarge : IsNumeral "9223372036854775808" :=
    ⟨by decide, List.all_eq_true.mp (by decide +kernel)⟩
  obtain ⟨word, hword, hvalue⟩ :=
    (numerals_and_integers_agree.1 "007" hseven).2.1 (by decide +kernel)
  have hdecimal : decimal "007" = 7 := by decide +kernel
  have heq : word = 7 := by
    rw [hdecimal] at hword
    exact Int64.toInt_inj.mp hword
  have herror := (numerals_and_integers_agree.1 _ hlarge).2.2 (by decide +kernel)
  have hminus := numerals_and_integers_agree.2.1 .null (-1) (by decide)
  exact ⟨heq ▸ hvalue, herror.2, hminus.2⟩

end ClosureLang
