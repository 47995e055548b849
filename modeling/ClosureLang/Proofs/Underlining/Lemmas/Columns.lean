import ClosureLang.Proofs.Underlining.Drawn
import Mathlib.Data.List.Basic
import Mathlib.Data.List.DropRight

/-!
# Columns of a line

How a word in a line is shown and underlined. There may be tabs in front of it and behind it, but it
has no white space in it.
-/

namespace ClosureLang

section

variable {α β γ : Type} {as : List α}

theorem flatten_mapIdx_singleton {f : Nat → α → List β} {g : Nat → α → β}
    (h : ∀ i, ∀ a ∈ as, f i a = [g i a]) : (as.mapIdx f).flatten = as.mapIdx g := by
  induction as generalizing f g with
  | nil => rfl
  | cons a as ih =>
      rw [List.mapIdx_cons, List.mapIdx_cons, List.flatten_cons, h 0 a List.mem_cons_self,
        ih fun i b hb => h (i + 1) b (List.mem_cons_of_mem a hb)]
      rfl

theorem length_flatten_mapIdx {f : Nat → α → List β} {g : Nat → α → List γ}
    (h : ∀ i a, (f i a).length = (g i a).length) :
    (as.mapIdx f).flatten.length = (as.mapIdx g).flatten.length := by
  induction as generalizing f g with
  | nil => rfl
  | cons a as ih =>
      rw [List.mapIdx_cons, List.mapIdx_cons, List.flatten_cons, List.flatten_cons,
        List.length_append, List.length_append, h 0 a, ih fun i => h (i + 1)]

/-- A row in which all is the same. -/
theorem flatten_mapIdx_eq_replicate {f : Nat → α → List β} {b : β}
    (h : ∀ i a, i < as.length → ∀ x ∈ f i a, x = b) :
    (as.mapIdx f).flatten = List.replicate (as.mapIdx f).flatten.length b := by
  refine List.eq_replicate_of_mem fun x hx => ?_
  obtain ⟨_, hmem, hx⟩ := List.mem_flatten.mp hx
  obtain ⟨i, hi, rfl⟩ := List.mem_mapIdx.mp hmem
  exact h i _ hi x hx

end

/-! ## Trimming -/

theorem trimEnd_eq (text : List Char) : trimEnd text = text.rdropWhile isWhiteSpace :=
  rfl

/-- What stands in front of something that is not white space stays. -/
theorem trimEnd_append {text : List Char} {c : Char} (hlast : text.getLast? = some c)
    (hc : isWhiteSpace c = false) (behind : List Char) :
    trimEnd (text ++ behind) = text ++ trimEnd behind := by
  simp only [trimEnd_eq]
  induction behind using List.reverseRecOn with
  | nil =>
      obtain ⟨front, rfl⟩ := List.getLast?_eq_some_iff.mp hlast
      simp [hc]
  | append_singleton behind d ih =>
      rw [← List.append_assoc, List.rdropWhile_concat, List.rdropWhile_concat, ih]
      split
      · rfl
      · exact List.append_assoc ..

/-- White space at the end goes. -/
theorem trimEnd_append_of_space {behind : List Char} (h : ∀ c ∈ behind, isWhiteSpace c = true)
    (text : List Char) : trimEnd (text ++ behind) = trimEnd text := by
  simp only [trimEnd_eq]
  induction behind using List.reverseRecOn with
  | nil => rw [List.append_nil]
  | append_singleton behind d ih =>
      obtain ⟨hbehind, hd⟩ := List.forall_mem_append.mp h
      rw [← List.append_assoc, List.rdropWhile_concat, if_pos (hd d List.mem_cons_self),
        ih hbehind]

namespace Diagnostic

/-! ## Cells -/

theorem width_eq (c : Char) (column : Nat) :
    width c column = if c = '\t' then 4 - column % 4 else 1 := by
  rw [width]
  split <;> omega

theorem width_pos (c : Char) (column : Nat) : 0 < width c column := by
  rw [width_eq]
  split <;> omega

theorem length_seen (c : Char) (column : Nat) : (seen c column).length = width c column := by
  rw [seen, width_eq]
  split
  · exact List.length_replicate
  · rfl

/-- The drawing shows a line with blanks for its tabs, if it has no white space but these. -/
theorem cells_eq_seen {c : Char} (h : isWhiteSpace c = true → c = ' ' ∨ c = '\t') (column : Nat) :
    cells c column = seen c column := by
  rw [cells, width_eq, seen]
  by_cases hspace : isWhiteSpace c = true
  · rcases h hspace with rfl | rfl <;> rfl
  · have htab : c ≠ '\t' := by
      rintro rfl
      exact hspace (by decide)
    rw [if_neg hspace, if_neg htab]

theorem flatten_cells {text : List Char}
    (h : ∀ c ∈ text, isWhiteSpace c = true → c = ' ' ∨ c = '\t') :
    (text.mapIdx fun column c => cells c column).flatten = expand text := by
  refine congrArg List.flatten (List.ext_getElem (by simp) fun column _ _ => ?_)
  rw [List.getElem_mapIdx, List.getElem_mapIdx]
  exact cells_eq_seen (h _ (List.getElem_mem _)) column

theorem ne_tab_of_word {c : Char} (hc : isWhiteSpace c = false) : c ≠ '\t' := by
  rintro rfl
  cases hc

theorem width_of_word {c : Char} (hc : isWhiteSpace c = false) (column : Nat) :
    width c column = 1 :=
  if_neg (ne_tab_of_word hc)

variable {left word right : List Char} {middle : Nat}

/-- A word is shown as it is, behind what is in front of it. -/
theorem expand_append (left : List Char) (hword : ∀ c ∈ word, isWhiteSpace c = false)
    (right : List Char) :
    ∃ more, expand (left ++ (word ++ right)) = expand left ++ word ++ more := by
  have hseen (column : Nat) (c : Char) (hc : c ∈ word) : seen c (column + left.length) = [c] :=
    if_neg (ne_tab_of_word (hword c hc))
  have hshown : (word.mapIdx fun column c => seen c (column + left.length)).flatten = word := by
    rw [flatten_mapIdx_singleton hseen]
    exact List.mapIdx_eq_iff.mpr fun i => by simp
  rw [expand, List.mapIdx_append, List.mapIdx_append, List.flatten_append, List.flatten_append,
    hshown, ← List.append_assoc]
  exact ⟨_, rfl⟩

theorem widths_append (left : List Char) (hword : ∀ c ∈ word, isWhiteSpace c = false)
    (right : List Char) (more : Nat) :
    ∃ others, widths (left ++ (word ++ right)) (left.length + (word.length + more)) =
      (left.mapIdx fun column c => width c column) ++ (List.replicate word.length 1 ++ others) := by
  have hones : (word.mapIdx fun column c => width c (column + left.length)) =
      List.replicate word.length 1 := by
    refine List.eq_replicate_iff.mpr ⟨List.length_mapIdx, fun cells hmem => ?_⟩
    obtain ⟨i, hi, rfl⟩ := List.mem_mapIdx.mp hmem
    exact width_of_word (hword _ (List.getElem_mem hi)) _
  have htake (as bs : List Nat) {n : Nat} (hlength : as.length = n) (m : Nat) :
      (as ++ bs).take (n + m) = as ++ bs.take m :=
    hlength ▸ List.take_length_add_append m
  rw [widths, List.mapIdx_append, List.mapIdx_append, hones, htake _ _ List.length_mapIdx,
    htake _ _ List.length_replicate, List.append_assoc, List.append_assoc]
  exact ⟨_, rfl⟩

/-! ## Rows below a line -/

/-- The cells of a row over columns of these widths. -/
def marked (mark fill : Nat → Char) (widths : List Nat) : List Char :=
  (widths.mapIdx fun column cells =>
    mark column :: List.replicate (cells - 1) (fill column)).flatten

variable {mark fill : Nat → Char}

theorem marked_append (some more : List Nat) : marked mark fill (some ++ more) =
    marked mark fill some ++
      marked (fun column => mark (column + some.length)) (fun column => fill (column + some.length))
        more := by
  rw [marked, List.mapIdx_append, List.flatten_append]
  rfl

theorem marked_blank {widths : List Nat}
    (h : ∀ column, column < widths.length → mark column = ' ' ∧ fill column = ' ') :
    marked mark fill widths = List.replicate (marked mark fill widths).length ' ' := by
  refine flatten_mapIdx_eq_replicate fun column cells hlt c hc => ?_
  rcases List.mem_cons.mp hc with rfl | hc
  · exact (h column hlt).1
  · exact (List.eq_of_mem_replicate hc).trans (h column hlt).2

/-- A row is as long as what it stands below. -/
theorem length_marked (mark fill : Nat → Char) (line : List Char) :
    (marked mark fill (line.mapIdx fun column c => width c column)).length =
      (expand line).length := by
  rw [marked, List.mapIdx_mapIdx]
  refine length_flatten_mapIdx fun column c => ?_
  have hpos := width_pos c column
  rw [Function.comp_apply, List.length_cons, List.length_replicate, length_seen]
  omega

theorem marked_ones (count : Nat) :
    marked mark fill (List.replicate count 1) = (List.range count).map mark := by
  have hone (column cells : Nat) (hmem : cells ∈ List.replicate count 1) :
      mark column :: List.replicate (cells - 1) (fill column) = [mark column] := by
    rw [List.eq_of_mem_replicate hmem]
    rfl
  rw [marked, flatten_mapIdx_singleton hone]
  exact List.ext_getElem (by simp) (by simp)

/-- A row that is blank but for the columns of a word has marks in its cells only. -/
theorem row_of_word (hword : ∀ c ∈ word, isWhiteSpace c = false) (right : List Char) (more : Nat)
    (hblank : ∀ column, ¬ (left.length ≤ column ∧ column < left.length + word.length) →
      mark column = ' ' ∧ fill column = ' ') :
    ∃ rest, row (left ++ (word ++ right)) (left.length + (word.length + more)) mark fill =
      String.ofList (List.replicate (expand left).length ' ' ++
        (((List.range word.length).map fun column => mark (column + left.length)) ++
        List.replicate rest ' ')) := by
  obtain ⟨others, hothers⟩ := widths_append left hword right more
  have hleft : marked mark fill (left.mapIdx fun column c => width c column) =
      List.replicate (expand left).length ' ' := by
    rw [← length_marked mark fill left]
    refine marked_blank fun column hlt => hblank column ?_
    rw [List.length_mapIdx] at hlt
    omega
  have hothers' : ∃ rest, marked (fun column => mark (column + word.length + left.length))
      (fun column => fill (column + word.length + left.length)) others =
        List.replicate rest ' ' :=
    ⟨_, marked_blank fun column _ => hblank _ (by omega)⟩
  obtain ⟨rest, hrest⟩ := hothers'
  refine ⟨rest, ?_⟩
  change String.ofList (marked mark fill _) = _
  rw [hothers, marked_append, hleft, List.length_mapIdx, marked_append, marked_ones,
    List.length_replicate, hrest]

theorem map_range_anchor (before behind : Nat) :
    ((List.range (before + 1 + behind)).map fun column => if column = before then '┬' else '─') =
      List.replicate before '─' ++ '┬' :: List.replicate behind '─' := by
  refine List.ext_getElem (by simp; omega) fun column _ _ => ?_
  rw [List.getElem_map, List.getElem_range]
  rcases Nat.lt_trichotomy column before with hlt | rfl | hlt
  · rw [if_neg (Nat.ne_of_lt hlt), List.getElem_append_left (by simpa using hlt),
      List.getElem_replicate]
  · simp
  · grind

/-- The row below a line underlines the cells of a word in it. -/
theorem row_underlined (hword : ∀ c ∈ word, isWhiteSpace c = false) (right : List Char)
    (hmiddle : left.length ≤ middle ∧ middle < left.length + word.length)
    (hmark : ∀ column, mark column = if column = middle then '┬' else fill column)
    (hfill : ∀ column, fill column =
      if left.length ≤ column ∧ column < left.length + word.length then '─' else ' ') :
    ∃ before behind rest, before + 1 + behind = word.length ∧
      row (left ++ (word ++ right)) (left.length + (word.length + 2)) mark fill =
        String.ofList (underline (expand left).length before behind rest) := by
  obtain ⟨before, rfl⟩ := Nat.exists_eq_add_of_le hmiddle.1
  obtain ⟨behind, hcount⟩ := Nat.exists_eq_add_of_le (Nat.add_lt_add_iff_left.mp hmiddle.2)
  have hblank (column : Nat)
      (h : ¬ (left.length ≤ column ∧ column < left.length + word.length)) :
      mark column = ' ' ∧ fill column = ' ' := by
    have hother : column ≠ left.length + before := fun heq => h (by omega)
    rw [hmark, if_neg hother, hfill, if_neg h]
    exact ⟨rfl, rfl⟩
  have hmarks : ((List.range word.length).map fun column => mark (column + left.length)) =
      List.replicate before '─' ++ '┬' :: List.replicate behind '─' := by
    rw [← map_range_anchor, ← Nat.succ_eq_add_one, ← hcount]
    refine List.map_congr_left fun column hmem => ?_
    have hlt := List.mem_range.mp hmem
    have hin : left.length ≤ column + left.length ∧
        column + left.length < left.length + word.length := by omega
    rw [hmark, hfill, if_pos hin, Nat.add_comm column]
    simp only [Nat.add_left_cancel_iff]
  obtain ⟨rest, hrow⟩ := row_of_word hword right 2 hblank
  rw [hmarks] at hrow
  refine ⟨before, behind, rest, hcount.symm, ?_⟩
  rw [underline, List.append_assoc]
  exact hrow

/-! ## Excerpts -/

/-- A word in a line is not trimmed. -/
theorem trimEnd_line (hword : ∀ c ∈ word, isWhiteSpace c = false) (hne : word ≠ []) :
    trimEnd (left ++ word ++ right) = left ++ (word ++ trimEnd right) := by
  have hlast : (left ++ word).getLast? = some (word.getLast hne) := by
    rw [List.getLast?_append_of_ne_nil left hne, List.getLast?_eq_some_getLast hne]
  rw [trimEnd_append hlast (hword _ (List.getLast_mem hne)), List.append_assoc]

/-- A line is shown with the words in it as they are. -/
theorem expand_trimEnd (hword : ∀ c ∈ word, isWhiteSpace c = false) (hne : word ≠ []) :
    ∃ more, expand (trimEnd (left ++ word ++ right)) = expand left ++ word ++ more := by
  rw [trimEnd_line hword hne]
  exact expand_append left hword (trimEnd right)

/-- The row below underlines the word that the excerpt is for. -/
theorem underline_of_word (hword : ∀ c ∈ word, isWhiteSpace c = false) (right : List Char)
    (hmiddle : left.length ≤ middle ∧ middle < left.length + word.length) :
    ∃ before behind rest, before + 1 + behind = word.length ∧
      (excerpt (left ++ word ++ right) left.length (left.length + word.length) middle).underline =
        String.ofList (underline (expand left).length before behind rest) := by
  have hne : word ≠ [] := by
    rintro rfl
    exact absurd hmiddle.2 (Nat.not_lt.mpr hmiddle.1)
  rw [excerpt, trimEnd_line hword hne, Nat.add_assoc]
  refine row_underlined hword (trimEnd right) hmiddle (fun _ => rfl) fun column => ?_
  simp only [decide_eq_true_eq]

end Diagnostic

end ClosureLang
