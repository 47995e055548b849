import ClosureLang.Proofs.Locating.Places

/-!
# Words in lines

Every line but the last ends with a line end, and so a word without any lies in one line. In front
of what ends it, a line has no line end.
-/

namespace ClosureLang

variable {text front word rest : List Char}

theorem mem_dropLast_cons {α : Type} {a b : α} {as : List α} (h : b ∈ (a :: as).dropLast) :
    as ≠ [] ∧ (b = a ∨ b ∈ as.dropLast) := by
  cases as with
  | nil => cases h
  | cons c as => exact ⟨List.cons_ne_nil c as, List.mem_cons.mp h⟩

/-- All lines but the last end with a line end. -/
def Ended (all : List (List Char)) : Prop :=
  ∀ line ∈ all.dropLast, ∃ body c, line = body ++ [c] ∧ isLineEnd c = true

theorem ended_lines (text : List Char) : Ended (lines text) := by
  intro line h
  fun_induction lines text generalizing line with
  | case1 => cases h
  | case2 rest ih =>
      rcases (mem_dropLast_cons h).2 with rfl | h
      · exact ⟨['\r'], '\n', rfl, by decide⟩
      · exact ih line h
  | case3 c rest _ hend ih =>
      rcases (mem_dropLast_cons h).2 with rfl | h
      · exact ⟨[], c, rfl, hend⟩
      · exact ih line h
  | case4 c rest _ _ none ih => cases h
  | case5 c rest _ _ first more some ih =>
      obtain ⟨hne, h⟩ := mem_dropLast_cons h
      rw [some, List.dropLast_cons_of_ne_nil hne] at ih
      rcases h with rfl | h
      · obtain ⟨body, d, rfl, hd⟩ := ih first List.mem_cons_self
        exact ⟨c :: body, d, rfl, hd⟩
      · exact ih line (List.mem_cons_of_mem _ h)

theorem Ended.tail {line : List Char} {below : List (List Char)} (h : Ended (line :: below)) :
    Ended below := by
  intro other hmem
  cases below with
  | nil => cases hmem
  | cons next more => exact h other (List.mem_cons_of_mem line hmem)

/-- What ends as a line does has a line end in it, if there are lines below. -/
theorem Ended.exists_mem {line tail : List Char} {below : List (List Char)}
    (h : Ended (line :: below)) (hbelow : below ≠ []) (htail : tail <:+ line) (hne : tail ≠ []) :
    ∃ c ∈ tail, isLineEnd c = true := by
  obtain ⟨body, c, rfl, hc⟩ :=
    h line (by rw [List.dropLast_cons_of_ne_nil hbelow]; exact List.mem_cons_self)
  rcases List.suffix_concat_iff.mp htail with hnil | ⟨before, rfl, _⟩
  · exact absurd hnil hne
  · exact ⟨c, by simp, hc⟩

/-- A word without a line end lies in one of the lines. -/
theorem exists_line_of_flatten {all : List (List Char)} {front : List Char}
    (hends : Ended all) (hall : all.flatten = front ++ (word ++ rest)) (hne : word ≠ [])
    (hword : ∀ c ∈ word, isLineEnd c = false) : ∃ above left right below,
      all = above ++ (left ++ word ++ right) :: below ∧ front = above.flatten ++ left := by
  induction all generalizing front with
  | nil => simp [hne] at hall
  | cons line below ih =>
      rw [List.flatten_cons] at hall
      rcases List.append_eq_append_iff.mp hall with ⟨before, rfl, hbelow⟩ | ⟨tail, rfl, htail⟩
      · obtain ⟨above, left, right, below, rfl, rfl⟩ := ih hends.tail hbelow
        exact ⟨line :: above, left, right, below, rfl, (List.append_assoc ..).symm⟩
      · by_cases hnil : tail = []
        · subst hnil
          have hbelow : below.flatten = [] ++ (word ++ rest) := htail.symm
          obtain ⟨above, left, right, below, rfl, hfront⟩ := ih hends.tail hbelow
          refine ⟨(front ++ []) :: above, left, right, below, rfl, ?_⟩
          rw [List.flatten_cons, List.append_assoc, ← hfront, List.append_nil, List.append_nil]
        -- The word begins in this line, and it would have to go over its end.
        · rcases List.append_eq_append_iff.mp htail with ⟨right, rfl, _⟩ | ⟨more, rfl, hmore⟩
          · exact ⟨[], front, right, below, by rw [List.append_assoc]; rfl, rfl⟩
          · cases below with
            | nil =>
                obtain ⟨rfl, rfl⟩ := List.append_eq_nil_iff.mp hmore.symm
                exact ⟨[], front, [], [], by simp, rfl⟩
            | cons next others =>
                obtain ⟨c, hc, hend⟩ := hends.exists_mem (List.cons_ne_nil next others)
                  (List.suffix_append front tail) hnil
                exact absurd hend (by simp [hword c (List.mem_append_left more hc)])

/-- A word without a line end lies in one line of a text. -/
theorem exists_line (htext : text = front ++ word ++ rest) (hne : word ≠ [])
    (hword : ∀ c ∈ word, isLineEnd c = false) : ∃ above left right below,
      lines text = above ++ (left ++ word ++ right) :: below ∧ front = above.flatten ++ left := by
  have hflatten : (lines text).flatten = front ++ (word ++ rest) := by
    rw [flatten_lines, htext, List.append_assoc]
  exact exists_line_of_flatten (ended_lines text) hflatten hne hword

/-- Only the end of a line is made up of line ends. -/
theorem exists_body {text line : List Char} (h : line ∈ lines text) : ∃ body ending,
    line = body ++ ending ∧ (∀ c ∈ body, isLineEnd c = false) ∧
      ∀ c ∈ ending, isLineEnd c = true := by
  fun_induction lines text generalizing line with
  | case1 => cases h
  | case2 rest ih =>
      rcases List.mem_cons.mp h with rfl | h
      · exact ⟨[], ['\r', '\n'], rfl, by simp, by simp [isLineEnd]⟩
      · exact ih h
  | case3 c rest _ hend ih =>
      rcases List.mem_cons.mp h with rfl | h
      · exact ⟨[], [c], rfl, by simp, by simpa using hend⟩
      · exact ih h
  | case4 c rest _ hend none ih =>
      obtain rfl := List.mem_singleton.mp h
      exact ⟨[c], [], rfl, by simpa using hend, by simp⟩
  | case5 c rest _ hend first more some ih =>
      rw [some] at ih
      rcases List.mem_cons.mp h with rfl | h
      · obtain ⟨body, ending, rfl, hbody, hending⟩ := ih List.mem_cons_self
        exact ⟨c :: body, ending, rfl, List.forall_mem_cons.mpr ⟨by simpa using hend, hbody⟩,
          hending⟩
      · exact ih (List.mem_cons_of_mem first h)

/-- The place of a column of a line. The end of the last line is in it. -/
theorem Place.ofOffset?_eq {above below : List (List Char)} {line : List Char} {column : Nat}
    (h : column < line.length ∨ below = []) :
    Place.ofOffset? (above.flatten.length + column) (above ++ line :: below) =
      some ⟨above.length, column, line⟩ := by
  induction above with
  | nil =>
      rw [List.flatten_nil, List.length_nil, Nat.zero_add, List.nil_append]
      cases below with
      | nil => rfl
      | cons next more =>
          rw [Place.ofOffset?, if_pos (h.resolve_right (List.cons_ne_nil next more)),
            List.length_nil]
  | cons first above ih =>
      have hmore : above ++ line :: below ≠ [] := by simp
      obtain ⟨next, more, heq⟩ := List.exists_cons_of_ne_nil hmore
      rw [List.cons_append, heq, Place.ofOffset?, List.flatten_cons, List.length_append,
        Nat.add_assoc, if_neg (by omega), Nat.add_sub_cancel_left, ← heq, ih]
      rfl

end ClosureLang
