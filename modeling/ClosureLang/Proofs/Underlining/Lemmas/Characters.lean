import ClosureLang.Proofs.Scanning.Lemmas.Lexemes
import ClosureLang.Proofs.Underlining.Lemmas.Columns
import ClosureLang.Proofs.Underlining.Lemmas.Lines

/-!
# Characters of plain texts

In a plain text all white space is blank, and no token has a blank in it. Within a line there are no
blanks but spaces and tabs.
-/

namespace ClosureLang

theorem isWhiteSpace_of_isLineEnd {c : Char} (h : isLineEnd c = true) : isWhiteSpace c = true := by
  simp only [isLineEnd, List.mem_cons, List.not_mem_nil, or_false, decide_eq_true_eq] at h
  rcases h with rfl | rfl | rfl | rfl | rfl | rfl | rfl <;> decide

namespace IsPlain

variable {c : Char}

theorem isWhiteSpace_iff (h : IsPlain c) : isWhiteSpace c = true ↔ c ∈ blankCharacters := by
  constructor
  · intro hspace
    have hascii := h.ascii
    have hcode : c.toNat = 9 ∨ c.toNat = 10 ∨ c.toNat = 11 ∨ c.toNat = 12 ∨ c.toNat = 13 ∨
        c.toNat = 32 := by
      simp only [isWhiteSpace, whiteSpaceRanges, List.any_cons, List.any_nil, Bool.or_eq_true,
        Bool.or_false, decide_eq_true_eq] at hspace
      omega
    have hchar (d : Char) (hd : c.toNat = d.toNat) : c = d := Char.toNat_inj.mp hd
    rcases hcode with hd | hd | hd | hd | hd | hd
    · rw [hchar '\t' hd]; decide
    · rw [hchar '\n' hd]; decide
    · exact absurd (hchar '\x0b' hd) h.ne_verticalTab
    · exact absurd (hchar '\x0c' hd) h.ne_formFeed
    · rw [hchar '\r' hd]; decide
    · rw [hchar ' ' hd]; decide
  · intro hblank
    rcases mem_blankCharacters.mp hblank with rfl | rfl | rfl | rfl <;> decide

/-- A blank in a plain text is a line end, a space or a tab. -/
theorem space_or_tab (h : IsPlain c) (hspace : isWhiteSpace c = true)
    (hend : isLineEnd c = false) : c = ' ' ∨ c = '\t' := by
  rcases mem_blankCharacters.mp (h.isWhiteSpace_iff.mp hspace) with rfl | rfl | rfl | rfl
  · exact .inl rfl
  · exact .inr rfl
  · cases hend
  · cases hend

end IsPlain

/-! ## Lines of plain texts -/

section

variable {text line : List Char} (hplain : ∀ c ∈ text, IsPlain c)

include hplain

theorem plain_of_mem_lines (hline : line ∈ lines text) : ∀ c ∈ line, IsPlain c :=
  fun c hc => hplain c (flatten_lines text ▸ List.mem_flatten_of_mem hline hc)

theorem trims_trimEnd : Diagnostic.Trims text (trimEnd text) where
  blanks := by
    refine ⟨text.rtakeWhile isWhiteSpace, (List.rdropWhile_append_rtakeWhile ..).symm, ?_⟩
    intro c hc
    have hmem : c ∈ text := (List.rtakeWhile_suffix isWhiteSpace text).subset hc
    exact (hplain c hmem).isWhiteSpace_iff.mp (List.mem_rtakeWhile_imp hc)
  last c hc hblank := by
    have hne : trimEnd text ≠ [] := List.ne_nil_of_mem (List.mem_of_getLast? hc)
    obtain rfl : (trimEnd text).getLast hne = c := by
      rwa [List.getLast?_eq_some_getLast hne, Option.mem_some_iff] at hc
    have hmem := (List.rdropWhile_prefix isWhiteSpace text).subset (List.getLast_mem hne)
    exact List.rdropWhile_last_not isWhiteSpace text hne
      ((hplain _ hmem).isWhiteSpace_iff.mpr hblank)

/-- A line is shown with spaces and tabs only. -/
theorem space_or_tab_of_mem (hline : line ∈ lines text) {c : Char} (hc : c ∈ trimEnd line)
    (hspace : isWhiteSpace c = true) : c = ' ' ∨ c = '\t' := by
  have hplain := plain_of_mem_lines hplain hline
  obtain ⟨body, ending, rfl, hbody, hending⟩ := exists_body hline
  rw [trimEnd_append_of_space fun c hc => isWhiteSpace_of_isLineEnd (hending c hc)] at hc
  have hmem : c ∈ body := (List.rdropWhile_prefix isWhiteSpace body).subset hc
  exact (hplain c (List.mem_append_left ending hmem)).space_or_tab hspace (hbody c hmem)

end

/-! ## Tokens -/

theorem not_blank_of_mem {source : String} {token : Token} (h : token ∈ scan source) :
    ∀ c ∈ token.literal.toList, isBlank c = false := by
  have hlexical := Scanner.lexical_of_mem h
  obtain ⟨c, tail, htext, hc, -⟩ := Scanner.spells_of_mem token h
  rw [htext] at hlexical ⊢
  refine List.forall_mem_cons.mpr ⟨hc, fun d hd => ?_⟩
  rcases hlexical.of_cons with ⟨_, hall⟩ | ⟨_, hall⟩ | ⟨_, _, rfl | ⟨rfl, _⟩⟩
  · exact runOf_letters.not_blank (hall d hd)
  · exact runOf_digits.not_blank (hall d hd)
  · cases hd
  · rw [List.mem_singleton.mp hd]
    rfl

end ClosureLang
