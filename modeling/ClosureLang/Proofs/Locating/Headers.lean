import ClosureLang.Diagnostic.Layout

/-!
# The header of a diagnostic

The row that names the file, the line and the column. Two headers of a file are the same only if
line and column are.
-/

namespace ClosureLang

/-- The row with the file, the line and the column, indented behind the line number. -/
def Diagnostic.header (filename : String) (line column : Nat) : String :=
  String.ofList (List.replicate ((toString line).length + 2) ' ') ++ "╭─[" ++
    (filename ++ ":" ++ toString line ++ ":" ++ toString column) ++ "]"

/-- Whether the diagnostic prints this header, which stands behind its first row. -/
def Diagnostic.Prints (diagnostic : Diagnostic) (header : String) : Prop :=
  diagnostic.rows[1]? = some header

theorem Diagnostic.prints_iff {diagnostic : Diagnostic} {header : String} :
    diagnostic.Prints header ↔ ∃ details, diagnostic.details = some details ∧
      Diagnostic.header diagnostic.filename details.line details.column = header := by
  rw [Prints, rows]
  cases diagnostic.details with
  | none => simp
  | some details => simp [detailRows, Diagnostic.header]

theorem append_cons_inj {α : Type} {a : α} {xs ys us vs : List α} (hx : a ∉ xs) (hy : a ∉ ys)
    (h : xs ++ a :: us = ys ++ a :: vs) : xs = ys ∧ us = vs := by
  induction xs generalizing ys with
  | nil =>
      cases ys with
      | nil => exact ⟨rfl, (List.cons.inj h).2⟩
      | cons y ys => exact absurd ((List.cons.inj h).1 ▸ List.mem_cons_self) hy
  | cons x xs ih =>
      cases ys with
      | nil => exact absurd ((List.cons.inj h).1 ▸ List.mem_cons_self) hx
      | cons y ys =>
          obtain ⟨hxy, hrest⟩ := List.cons.inj h
          obtain ⟨hxs, hus⟩ := ih (List.not_mem_of_not_mem_cons hx)
            (List.not_mem_of_not_mem_cons hy) hrest
          exact ⟨by rw [hxy, hxs], hus⟩

theorem toString_inj {m n : Nat} (h : (toString m).toList = (toString n).toList) : m = n := by
  have hdigits : Nat.toDigits 10 m = Nat.toDigits 10 n := by
    rw [← Nat.toList_repr, ← Nat.toList_repr]
    exact h
  rw [← Nat.ofDigitChars_ten_toDigits (n := m), hdigits, Nat.ofDigitChars_ten_toDigits]

theorem colon_not_mem_toString (n : Nat) : ':' ∉ (toString n).toList := by
  intro hmem
  have hmem : ':' ∈ Nat.toDigits 10 n := Nat.toList_repr ▸ hmem
  exact absurd (Nat.isDigit_of_mem_toDigits (by decide) (by decide) hmem) (by decide)

theorem Diagnostic.header_inj {filename : String} {line line' column column' : Nat}
    (h : header filename line column = header filename line' column') :
    line = line' ∧ column = column' := by
  have hframe : "╭─[".toList = ['╭', '─', '['] := rfl
  have hcolon : ":".toList = [':'] := rfl
  have h := congrArg String.toList h
  simp only [header, String.toList_append, String.toList_ofList, List.append_assoc, hframe, hcolon,
    List.cons_append, List.nil_append] at h
  -- The indentation ends at the frame, and each number at what stands behind it.
  obtain ⟨_, h⟩ := append_cons_inj (by simp) (by simp) h
  have hnumbers := List.append_cancel_left (List.cons.inj (List.cons.inj h).2).2
  obtain ⟨hline, hcolumn⟩ := append_cons_inj (colon_not_mem_toString line)
    (colon_not_mem_toString line') (List.cons.inj hnumbers).2
  exact ⟨toString_inj hline, toString_inj (List.append_cancel_right hcolumn)⟩

end ClosureLang
