import ClosureLang.Proofs.Interacting.Rounds

/-!
# The lines of a stream of bytes

Lines that are put together are found again, also if some are left out, and the lines of a text are
texts.
-/

namespace ClosureLang.Repl

variable {α β : Type} {gone : Nat → Bool}

/-! ## Leaving out -/

theorem map_without (f : α → β) (gone : Nat → Bool) (xs : List α) :
    (without gone xs).map f = without gone (xs.map f) := by
  induction xs generalizing gone with
  | nil => rfl
  | cons x xs ih =>
      simp only [without, List.map_cons, ← ih]
      split <;> rfl

theorem without_append_singleton {xs : List α} (h : gone xs.length = false) (x : α) :
    without gone (xs ++ [x]) = without gone xs ++ [x] := by
  induction xs generalizing gone with
  | nil =>
      have hkept : ¬ gone 0 = true := Bool.not_eq_true _ ▸ h
      exact if_neg hkept
  | cons y ys ih =>
      have hys := @ih (fun i => gone (i + 1)) h
      simp only [without, List.cons_append, hys]
      split <;> rfl

/-! ## Splitting -/

/-- Every one of the lines is ended by a line feed, except that the last one may do without. -/
inductive Lined : List (List UInt8) → Prop
  | nil : Lined []
  | last {line} : line ≠ [] → 10 ∉ line → Lined [line]
  | cons {front lines} : 10 ∉ front → Lined lines → Lined ((front ++ [10]) :: lines)

theorem Lined.without {lines : List (List UInt8)} (h : Lined lines) (gone : Nat → Bool) :
    Lined (without gone lines) := by
  induction h generalizing gone with
  | nil => exact .nil
  | last hne hfeed =>
      simp only [Repl.without]
      split
      · exact .nil
      · exact .last hne hfeed
  | cons hfeed _ ih =>
      simp only [Repl.without]
      split
      · exact ih _
      · exact .cons hfeed (ih _)

/-- Bytes without a line feed belong to the line that follows. -/
theorem splitLines_append {front : List UInt8} (hne : front ≠ []) (hfeed : 10 ∉ front)
    (rest : List UInt8) :
    splitLines (front ++ rest) = match splitLines rest with
      | [] => [front]
      | line :: more => (front ++ line) :: more := by
  induction front with
  | nil => exact absurd rfl hne
  | cons byte front ih =>
      have hbyte : byte ≠ 10 := (List.ne_of_not_mem_cons hfeed).symm
      have hfront : 10 ∉ front := List.not_mem_of_not_mem_cons hfeed
      rw [List.cons_append, splitLines, if_neg hbyte]
      cases front with
      | nil => rfl
      | cons byte' front =>
          rw [ih (List.cons_ne_nil _ _) hfront]
          cases splitLines rest <;> rfl

theorem lined_splitLines (bytes : List UInt8) : Lined (splitLines bytes) := by
  induction bytes with
  | nil => exact .nil
  | cons byte rest ih =>
      rw [splitLines]
      split
      · next hbyte =>
        subst hbyte
        exact @Lined.cons [] _ List.not_mem_nil ih
      · next hbyte =>
        have hcons {line : List UInt8} (hline : 10 ∉ line) : 10 ∉ byte :: line :=
          List.not_mem_cons_of_ne_of_not_mem (Ne.symm hbyte) hline
        generalize splitLines rest = lines at ih ⊢
        cases ih with
        | nil => exact .last (List.cons_ne_nil _ _) (hcons List.not_mem_nil)
        | last _ hfeed => exact .last (List.cons_ne_nil _ _) (hcons hfeed)
        | cons hfeed hlines => exact .cons (hcons hfeed) hlines

theorem splitLines_flatten {lines : List (List UInt8)} (h : Lined lines) :
    splitLines lines.flatten = lines := by
  induction h with
  | nil => rfl
  | @last line hne hfeed =>
      rw [List.flatten_singleton]
      have hsplit := splitLines_append hne hfeed []
      rwa [List.append_nil] at hsplit
  | @cons front lines hfeed _ ih =>
      have hend : splitLines (10 :: lines.flatten) = [10] :: lines := by
        rw [splitLines, if_pos rfl, ih]
      rw [List.flatten_cons, List.append_assoc, List.singleton_append]
      by_cases hne : front = []
      · rw [hne, List.nil_append, hend]
        rfl
      · rw [splitLines_append hne hfeed, hend]

/-! ## Bytes -/

theorem toList_loop (bytes : ByteArray) (i : Nat) (read : List UInt8) :
    ByteArray.toList.loop bytes i read = read.reverse ++ bytes.data.toList.drop i := by
  fun_induction ByteArray.toList.loop bytes i read with
  | case1 i read hi ih =>
      have hi : i < bytes.data.toList.length := hi
      rw [ih, List.drop_eq_getElem_cons hi]
      simp [ByteArray.get!, getElem!_pos bytes.data i hi]
  | case2 i read hi =>
      have hi : bytes.data.toList.length ≤ i := Nat.le_of_not_lt hi
      rw [List.drop_eq_nil_of_le hi, List.append_nil]

theorem toList_eq (bytes : ByteArray) : bytes.toList = bytes.data.toList :=
  toList_loop bytes 0 []

/-- The lines that are left of a stream are the lines of what is left of it. -/
theorem splitLines_withoutLines (gone : Nat → Bool) (bytes : ByteArray) :
    splitLines (withoutLines gone bytes).toList = without gone (splitLines bytes.toList) := by
  rw [toList_eq, withoutLines, List.toList_toArray]
  exact splitLines_flatten ((lined_splitLines _).without gone)

/-! ## Texts -/

/-- The bytes of a character that has several are all above those of ASCII. -/
theorem eq_feed_of_mem_utf8EncodeChar {c : Char} (h : 10 ∈ String.utf8EncodeChar c) :
    c = '\n' := by
  have hbyte {n : Nat} (heq : (10 : UInt8) = UInt8.ofNat n) : 10 = n % 256 := by
    simpa using congrArg UInt8.toNat heq
  rw [String.utf8EncodeChar] at h
  split at h
  · have hc := hbyte (List.mem_singleton.mp h)
    have hval : c.val.toNat = 10 := by omega
    exact Char.ext (UInt32.toNat_inj.mp hval)
  · split at h
    · simp only [List.mem_cons, List.not_mem_nil, or_false] at h
      rcases h with h | h <;> have := hbyte h <;> omega
    · split at h
      · simp only [List.mem_cons, List.not_mem_nil, or_false] at h
        rcases h with h | h | h <;> have := hbyte h <;> omega
      · simp only [List.mem_cons, List.not_mem_nil, or_false] at h
        rcases h with h | h | h | h <;> have := hbyte h <;> omega

/-- The lines of a text are texts again. -/
theorem exists_of_mem_splitLines {text : List Char} {line : List UInt8}
    (hline : line ∈ splitLines (text.flatMap String.utf8EncodeChar)) :
    ∃ chars : List Char, line = chars.flatMap String.utf8EncodeChar := by
  induction text generalizing line with
  | nil => cases hline
  | cons c text ih =>
      rw [List.flatMap_cons] at hline
      by_cases hc : c = '\n'
      · subst hc
        rw [show String.utf8EncodeChar '\n' = [10] from rfl, List.singleton_append, splitLines,
          if_pos rfl] at hline
        rcases List.mem_cons.mp hline with rfl | hline
        · exact ⟨['\n'], rfl⟩
        · exact ih hline
      · have hfeed : 10 ∉ String.utf8EncodeChar c := fun h => hc (eq_feed_of_mem_utf8EncodeChar h)
        rw [splitLines_append String.utf8EncodeChar_ne_nil hfeed] at hline
        split at hline
        · exact ⟨[c], by simpa using hline⟩
        · next first more hsplit =>
          rw [hsplit] at ih
          rcases List.mem_cons.mp hline with rfl | hline
          · obtain ⟨chars, rfl⟩ := ih List.mem_cons_self
            exact ⟨c :: chars, by rw [List.flatMap_cons]⟩
          · exact ih (List.mem_cons_of_mem _ hline)

/-- Nothing in a text fails to be one. -/
theorem undecodable_not_mem_inputs (text : String) : .undecodable ∉ inputs text.toUTF8 := by
  rw [inputs, toList_eq, String.toUTF8, ← String.utf8Encode_toList, List.utf8Encode,
    List.toList_data_toByteArray]
  simp only [List.mem_append, List.mem_map, List.mem_singleton, reduceCtorEq, or_false]
  rintro ⟨line, hline, hinput⟩
  obtain ⟨chars, rfl⟩ := exists_of_mem_splitLines hline
  have hvalid : ByteArray.IsValidUTF8 ⟨(chars.flatMap String.utf8EncodeChar).toArray⟩ :=
    .intro chars (ByteArray.ext (Array.ext' List.toList_data_toByteArray.symm))
  rw [Input.ofBytes, String.fromUTF8?, dif_pos hvalid] at hinput
  cases hinput

end ClosureLang.Repl
