import ClosureLang.Proofs.Locating.Headers
import ClosureLang.Proofs.Numerals.Numeral
import ClosureLang.Proofs.Underlining.Drawn

/-!
# Rows of a diagnostic

What the rows begin with tells them apart: only a row with a source line has a number in its margin,
and only the row with a help text has a note behind it.
-/

namespace ClosureLang.Diagnostic

variable {diagnostic : Diagnostic} {details : Details} {row : String}

theorem note_eq (line : Nat) (help : String) :
    note line help = String.ofList (List.replicate ((toString line).length + 2) ' ') ++
      "│ Note: help: " ++ help := by
  rw [← String.toList_inj]
  simp [note, blankMargin]

/-- The row that closes the frame. -/
def bottom (line : Nat) : String :=
  String.ofList (List.replicate ((toString line).length + 2) '─') ++ "╯"

/-- All rows there are. -/
theorem mem_rows_iff (h : diagnostic.details = some details) : row ∈ diagnostic.rows ↔
    row = "Error: Parse Error: " ++ diagnostic.message ∨
    row = header diagnostic.filename details.line details.column ∨
    row = String.ofList (List.replicate ((toString details.line).length + 2) ' ') ++ "│" ∨
    (∃ excerpt, details.excerpt = some excerpt ∧
      (row = numberedMargin details.line ++ excerpt.shown ∨
        row = blankMargin details.line ++ excerpt.underline ∨
        row = blankMargin details.line ++ excerpt.lead ++ " " ++ diagnostic.message)) ∨
    (details.excerpt = none ∧ row = blankMargin details.line) ∨
    (∃ help, diagnostic.help = some help ∧
      (row = blankMargin details.line ∨ row = note details.line help)) ∨
    row = bottom details.line := by
  rw [rows, h]
  cases hexcerpt : details.excerpt <;> cases hhelp : diagnostic.help <;>
    simp [detailRows, hexcerpt, hhelp, header, numberedMargin, blankMargin, note_eq, bottom,
      or_assoc]

/-! ## Margins -/

theorem exists_digit (n : Nat) :
    ∃ digit more, (toString n).toList = digit :: more ∧ digit ≠ ' ' := by
  have hnumeral := isNumeral_toString n
  have hne : (toString n).toList ≠ [] := fun h => hnumeral.ne_empty (String.toList_eq_nil_iff.mp h)
  obtain ⟨digit, more, hdigits⟩ := List.exists_cons_of_ne_nil hne
  have hdigit := hnumeral.digits digit (hdigits ▸ List.mem_cons_self)
  refine ⟨digit, more, hdigits, ?_⟩
  rintro rfl
  exact absurd hdigit (by decide)

theorem toList_numberedMargin (line : Nat) : ∃ digit more,
    (numberedMargin line).toList = ' ' :: digit :: more ∧ digit ≠ ' ' := by
  obtain ⟨digit, more, hdigits, hdigit⟩ := exists_digit line
  have hspace : " ".toList = [' '] := rfl
  refine ⟨digit, more ++ " │ ".toList, ?_, hdigit⟩
  rw [numberedMargin, String.toList_append, String.toList_append, hdigits, hspace]
  rfl

/-- Without an excerpt, no source line is shown. -/
theorem not_showsLine (h : diagnostic.details = some details) (hnone : details.excerpt = none) :
    ¬ diagnostic.ShowsLine := by
  rintro ⟨line, row, hrow, hprefix⟩
  obtain ⟨digit, more, hmargin, hdigit⟩ := toList_numberedMargin line
  rw [hmargin] at hprefix
  rw [mem_rows_iff h, hnone] at hrow
  rcases hrow with rfl | rfl | rfl | ⟨_, hsome, _⟩ | ⟨_, rfl⟩ | ⟨_, _, rfl | rfl⟩ | rfl
  · simp at hprefix
  · simp [header, List.replicate_succ, hdigit] at hprefix
  · simp [List.replicate_succ, hdigit] at hprefix
  · cases hsome
  · simp [blankMargin, List.replicate_succ, hdigit] at hprefix
  · simp [blankMargin, List.replicate_succ, hdigit] at hprefix
  · simp [note, blankMargin, List.replicate_succ, hdigit] at hprefix
  · simp [bottom, List.replicate_succ] at hprefix

/-! ## Notes -/

/-- A row has nothing but its marks. -/
theorem not_mem_row {line : List Char} {columns : Nat} {mark fill : Nat → Char} {c : Char}
    (hmark : ∀ column, mark column ≠ c) (hfill : ∀ column, fill column ≠ c) :
    c ∉ (Diagnostic.row line columns mark fill).toList := by
  intro h
  rw [Diagnostic.row, String.toList_ofList] at h
  obtain ⟨_, hmem, hc⟩ := List.mem_flatten.mp h
  obtain ⟨column, hlt, rfl⟩ := List.mem_mapIdx.mp hmem
  rcases List.mem_cons.mp hc with hc | hc
  · exact hmark column hc.symm
  · exact hfill column (List.eq_of_mem_replicate hc).symm

/-- Nothing below the line could be taken for the head of a note. -/
def KeepsClear (excerpt : Excerpt) : Prop :=
  'N' ∉ excerpt.underline.toList ∧ 'N' ∉ excerpt.lead.toList

theorem excerpt_keepsClear (line : List Char) (start stop middle : Nat) :
    KeepsClear (excerpt line start stop middle) :=
  ⟨not_mem_row (fun _ => by grind) (fun _ => by grind),
    not_mem_row (fun _ => by grind) (fun _ => by grind)⟩

/-- The note is one of the rows exactly if there is that help. -/
theorem note_mem_rows_iff (h : diagnostic.details = some details)
    (hclear : ∀ excerpt, details.excerpt = some excerpt → KeepsClear excerpt) (text : String) :
    note details.line text ∈ diagnostic.rows ↔ diagnostic.help = some text := by
  rw [mem_rows_iff h]
  constructor
  · rintro (hrow | hrow | hrow | ⟨excerpt, hsome, hrow | hrow | hrow⟩ | ⟨_, hrow⟩ |
      ⟨help, hhelp, hrow | hrow⟩ | hrow)
    · simp [note, blankMargin, ← String.toList_inj, List.replicate_succ] at hrow
    · simp [note, blankMargin, header, ← String.toList_inj] at hrow
    · simp [note, blankMargin, ← String.toList_inj] at hrow
    · obtain ⟨digit, more, hmargin, hdigit⟩ := toList_numberedMargin details.line
      simp [note, blankMargin, ← String.toList_inj, hmargin, List.replicate_succ, hdigit.symm]
        at hrow
    · have hmem : 'N' ∈ excerpt.underline.toList := by
        rw [note, String.append_assoc, String.append_right_inj] at hrow
        simp [← hrow]
      exact absurd hmem (hclear excerpt hsome).1
    · rw [note, String.append_assoc, String.append_assoc, String.append_assoc,
        String.append_right_inj, ← String.toList_inj] at hrow
      have hmem : 'N' ∈ excerpt.lead.toList := by
        cases hlead : excerpt.lead.toList with
        | nil => simp [hlead] at hrow
        | cons c more =>
            obtain ⟨rfl, _⟩ : 'N' = c ∧ _ := by simpa [hlead] using hrow
            exact List.mem_cons_self
      exact absurd hmem (hclear excerpt hsome).2
    · simp [note, blankMargin, ← String.toList_inj] at hrow
    · simp [note, blankMargin, ← String.toList_inj] at hrow
    · rw [note, note, String.append_right_inj] at hrow
      rw [hrow, hhelp]
    · simp [note, blankMargin, bottom, ← String.toList_inj, List.replicate_succ] at hrow
  · intro hhelp
    have hrow : ∃ help, diagnostic.help = some help ∧
        (note details.line text = blankMargin details.line ∨
          note details.line text = note details.line help) := ⟨text, hhelp, .inr rfl⟩
    simp only [hrow, true_or, or_true]

end ClosureLang.Diagnostic
