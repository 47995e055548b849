import ClosureLang.Proofs.Locating.Theorems
import ClosureLang.Proofs.Underlining.Lemmas.Characters
import ClosureLang.Proofs.Underlining.Lemmas.Columns
import ClosureLang.Proofs.Underlining.Lemmas.Lines
import ClosureLang.Proofs.Underlining.Lemmas.Rows

/-!
# Underlines are exact

In a plain text, a diagnostic shows the line of the token that is to blame and underlines just that
token. For the end of the text there is no line to show.
-/

namespace ClosureLang

/-! ## Details -/

namespace Diagnostic

variable {span : Span} {source : String} {above below : List (List Char)}

/-- The details for a word in a line. -/
theorem details?_of_word {left word right : List Char}
    (hlines : lines source.toList = above ++ (left ++ word ++ right) :: below)
    (hstart : span.start = above.flatten.length + left.length)
    (hstop : span.stop = span.start + word.length) (hne : word ≠ []) :
    ∃ middle, (left.length ≤ middle ∧ middle < left.length + word.length) ∧
      details? span source = some ⟨above.length + 1, left.length + 1,
        some (excerpt (left ++ word ++ right) left.length (left.length + word.length) middle)⟩ := by
  have hpos := List.length_pos_iff.mpr hne
  have htotal : source.toList.length = above.flatten.length +
      ((left.length + word.length + right.length) + below.flatten.length) := by
    rw [← flatten_lines source.toList, hlines]
    simp only [List.flatten_append, List.flatten_cons, List.length_append]
  have hline : (left ++ word ++ right).length = left.length + word.length + right.length := by
    rw [List.length_append, List.length_append]
  have hplace : Place.ofOffset? (above.flatten.length + left.length)
      (above ++ (left ++ word ++ right) :: below) =
        some ⟨above.length, left.length, left ++ word ++ right⟩ :=
    Place.ofOffset?_eq (.inl (by omega))
  refine ⟨(span.start + span.stop) / 2 - above.flatten.length, by omega, ?_⟩
  rw [details?, if_pos (by omega), hlines, hstart, hplace]
  have hoffset : above.flatten.length + left.length - left.length = above.flatten.length := by omega
  have hcount : span.stop - above.flatten.length = left.length + word.length := by omega
  simp only [Option.map_some, hoffset, hcount]
  rw [if_pos (by omega)]

/-- The details for the end of a text, which is in its last line. -/
theorem details?_of_end {line : List Char} (hlines : lines source.toList = above ++ [line])
    (hstart : span.start = source.toList.length) (hstop : span.stop = span.start + 1) :
    details? span source = some ⟨above.length + 1, line.length + 1, none⟩ := by
  have htotal : source.toList.length = above.flatten.length + line.length := by
    rw [← flatten_lines source.toList, hlines]
    simp only [List.flatten_append, List.flatten_cons, List.flatten_nil, List.append_nil,
      List.length_append]
  have hplace : Place.ofOffset? (above.flatten.length + line.length) (above ++ [line]) =
      some ⟨above.length, line.length, line⟩ := Place.ofOffset?_eq (.inr rfl)
  rw [details?, if_pos (by omega), hlines, hstart, htotal, hplace]
  simp only [Option.map_some]
  rw [if_neg (by omega)]

variable {diagnostic : Diagnostic}

/-- What is drawn for a word in a plain line of a text. -/
theorem underlines_of_details {text : List Char} {middle : Nat} {left word right : List Char}
    (h : diagnostic.details = some ⟨above.length + 1, left.length + 1,
      some (excerpt (left ++ word ++ right) left.length (left.length + word.length) middle)⟩)
    (hplain : ∀ c ∈ text, IsPlain c) (hline : left ++ word ++ right ∈ lines text)
    (hword : ∀ c ∈ word, isWhiteSpace c = false)
    (hmiddle : left.length ≤ middle ∧ middle < left.length + word.length) :
    diagnostic.Underlines above.length left word right := by
  have hne : word ≠ [] := by
    rintro rfl
    exact absurd hmiddle.2 (Nat.not_lt.mpr hmiddle.1)
  obtain ⟨before, behind, rest, hcount, hrow⟩ := underline_of_word hword right hmiddle
  have hshown : (excerpt (left ++ word ++ right) left.length (left.length + word.length)
      middle).shown = String.ofList (expand (trimEnd (left ++ word ++ right))) :=
    congrArg String.ofList (flatten_cells fun c hc => space_or_tab_of_mem hplain hline hc)
  refine ⟨prints_iff.mpr ⟨_, h, rfl⟩, ⟨trimEnd (left ++ word ++ right),
    trims_trimEnd (plain_of_mem_lines hplain hline), expand_trimEnd hword hne, ?_⟩,
    before, behind, rest, hcount, ?_⟩
  · rw [← hshown, rows, h]
    rfl
  · rw [← hrow, rows, h]
    rfl

/-- What is drawn, if there are details, goes on behind the headline. -/
theorem length_rows {details : Details} (h : diagnostic.details = some details) :
    1 < diagnostic.rows.length := by
  rw [rows, h]
  simp [detailRows]

theorem keepsClear_of_details? {details : Details} (h : details? span source = some details) :
    ∀ drawn, details.excerpt = some drawn → KeepsClear drawn := by
  rw [details?] at h
  split at h
  · obtain ⟨place, -, rfl⟩ := Option.map_eq_some_iff.mp h
    intro drawn hdrawn
    dsimp only at hdrawn
    split at hdrawn
    · cases hdrawn
      exact excerpt_keepsClear ..
    · cases hdrawn
  · cases h

end Diagnostic

/-! ## Tokens of a plain text -/

section

variable {source : String} {token : Token}

theorem byteLength_of_plain {text : List Char} (h : ∀ c ∈ text, IsPlain c) :
    byteLength text = text.length :=
  byteLength_eq_length_iff.mpr fun c hc => (h c hc).ascii

/-- There is no white space in a token of a plain text, and so it does not go over a line end. -/
theorem not_space_of_mem (hplain : ∀ c ∈ source.toList, IsPlain c) (h : token ∈ scan source) :
    (∀ c ∈ token.literal.toList, isWhiteSpace c = false) ∧
      ∀ c ∈ token.literal.toList, isLineEnd c = false := by
  obtain ⟨front, rest, htext, -, -⟩ := Scanner.exists_front token h
  have htext : source.toList = front ++ token.literal.toList ++ rest := htext
  have hmem (c : Char) (hc : c ∈ token.literal.toList) : IsPlain c :=
    hplain c (htext ▸ List.mem_append_left rest (List.mem_append_right front hc))
  have hspace (c : Char) (hc : c ∈ token.literal.toList) : isWhiteSpace c = false :=
    Bool.eq_false_iff.mpr fun hspace => isBlank_eq_false_iff.mp (not_blank_of_mem h c hc)
      ((hmem c hc).isWhiteSpace_iff.mp hspace)
  refine ⟨hspace, fun c hc => Bool.eq_false_iff.mpr fun hend => ?_⟩
  exact Bool.eq_false_iff.mp (hspace c hc) (isWhiteSpace_of_isLineEnd hend)

/-- A token of a plain text lies in one of its lines, and its span counts characters. -/
theorem exists_place_of_mem (hplain : ∀ c ∈ source.toList, IsPlain c) (h : token ∈ scan source) :
    ∃ above left right below,
      lines source.toList = above ++ (left ++ token.literal.toList ++ right) :: below ∧
      token.StandsBehind source (above.flatten ++ left) ∧
      token.span.start = above.flatten.length + left.length ∧
      token.span.stop = token.span.start + token.literal.toList.length := by
  obtain ⟨front, rest, htext, hstart, hstop⟩ := Scanner.exists_front token h
  have htext : source.toList = front ++ token.literal.toList ++ rest := htext
  have hstart : token.span.start = byteLength front := hstart.trans (Nat.zero_add _)
  obtain ⟨above, left, right, below, hlines, rfl⟩ :=
    exists_line htext (Scanner.lexical_of_mem h).ne_nil (not_space_of_mem hplain h).2
  rw [htext] at hplain
  have hfront := byteLength_of_plain fun c hc =>
    hplain c (List.mem_append_left _ (List.mem_append_left _ hc))
  have hword := byteLength_of_plain fun c hc =>
    hplain c (List.mem_append_left _ (List.mem_append_right _ hc))
  refine ⟨above, left, right, below, hlines, ⟨⟨rest, htext, ?_⟩, hstart⟩, ?_, ?_⟩
  · exact fun hk => absurd hk (Scanner.kind_ne_eof _ token h)
  · rw [hstart, hfront, List.length_append]
  · rw [hstop, hword]

end

/-- A word that no expression begins with, behind a tab in the third line. -/
def strayWord : SyntaxError :=
  ⟨⟨.elseWord, "else", ⟨9, 13⟩⟩, .cannotStart⟩

end ClosureLang
