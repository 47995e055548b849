import ClosureLang.Proofs.Placing.Alike
import ClosureLang.Proofs.Scanning.Lemmas.Shifting
import ClosureLang.Proofs.Splicing.Spaced

/-!
# Scanning is compositional
-/

namespace ClosureLang

theorem stream_append {a b : String} (h : SideBySide a b) :
    stream (a ++ b) = scan a ++ (stream b).map (Token.placed (shifted a.utf8ByteSize)) := by
  rw [stream, scan_append h.apart, endToken_append, stream, List.map_append, List.append_assoc]
  rfl

/-- Where no token can go over the seam, the tokens of two texts side by side are those of the first
and then, as many bytes further on as the first has, those of the second with the end. So tokens
with any blanks between them are read again as the same words. -/
theorem scanning_is_compositional :
    (∀ a b, SideBySide a b →
      stream (a ++ b) = scan a ++ (stream b).map (Token.placed (shifted a.utf8ByteSize))) ∧
    ∀ source gap, (∀ n, IsGap (gap n)) →
      words (spacedOut gap ((scan source).map Token.literal)) = words source :=
  ⟨fun _ _ h => stream_append h, fun _ _ hgap => words_spacedOut hgap Scanner.spells_of_mem⟩

/-- A tab where one word is left to follow, and otherwise the end of a line. -/
def tabbed : Nat → String
  | 0 => "\t"
  | _ => " \r\n"

theorem isGap_tabbed (n : Nat) : IsGap (tabbed n) := by
  have htab : IsGap "\t" := ⟨by decide, by simp [blankCharacters]⟩
  have hend : IsGap " \r\n" := ⟨by decide, by simp [blankCharacters]⟩
  cases n with
  | zero => exact htab
  | succ n => exact hend

/-- A letter in front of a digit, and a character of two bytes. -/
theorem name_and_number_side_by_side :
    SideBySide "é=x" "1==2" ∧
      stream ("é=x" ++ "1==2") =
        scan "é=x" ++ (stream "1==2").map (Token.placed (shifted 4)) ∧
      spacedOut tabbed ((scan "é=x").map Token.literal) = "é \r\n=\tx" ∧
      words "é \r\n=\tx" = words "é=x" := by
  have hparted : SideBySide "é=x" "1==2" := by
    intro c hc d hd
    obtain rfl : 'x' = c := by simpa using hc
    obtain rfl : '1' = d := by simpa using hd
    decide
  have hspaced : spacedOut tabbed ((scan "é=x").map Token.literal) = "é \r\n=\tx" := by
    decide +kernel
  have hwords := scanning_is_compositional.2 "é=x" tabbed isGap_tabbed
  rw [hspaced] at hwords
  exact ⟨hparted, scanning_is_compositional.1 _ _ hparted, hspaced, hwords⟩

end ClosureLang
