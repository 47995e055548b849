import ClosureLang.Diagnostic.Layout
import ClosureLang.Proofs.Scanning.Lemmas.Splitting
import Mathlib.Data.List.Basic

/-!
# Places of tokens in a text

Where a token stands, in characters, and in which line and column that is. Neither is said through
the numbers that a diagnostic is drawn from.
-/

namespace ClosureLang

/-! ## Tokens -/

/-- A token is spelled out behind `front`. The end of the source has no text, and stands behind all
of it. Spans count bytes. -/
structure Token.StandsBehind (source : String) (front : List Char) (token : Token) : Prop where
  text : ∃ rest, source.toList = front ++ token.literal.toList ++ rest ∧
    (token.kind = .eof → rest = [])
  start : token.span.start = byteLength front

theorem Scanner.exists_front {s : Scanner} : ∀ t ∈ s.tokens, ∃ front rest,
    s.rest = front ++ t.literal.toList ++ rest ∧ t.span.start = s.offset + byteLength front ∧
      t.span.stop = t.span.start + byteLength t.literal.toList := by
  obtain ⟨text, offset⟩ := s
  match text with
  | [] => simp [tokens_nil]
  | c :: rest =>
      cases hc : isBlank c with
      | true =>
          intro t ht
          rw [tokens_blank hc] at ht
          obtain ⟨front, behind, htext, hstart, hstop⟩ := exists_front t ht
          refine ⟨c :: front, behind, congrArg (c :: ·) htext, ?_, hstop⟩
          rw [hstart, byteLength_cons, Nat.add_assoc]
      | false =>
          have hlt : (rest.drop (lexeme c rest).2.length).length < (c :: rest).length := by
            rw [List.length_drop, List.length_cons]; omega
          have htail := lexeme_tail_prefix c rest
          have hsplit : c :: rest =
              (c :: (lexeme c rest).2) ++ rest.drop (lexeme c rest).2.length := by
            rw [List.cons_append, List.prefix_iff_eq_append.mp htail]
          intro t ht
          rw [tokens_cons hc] at ht
          cases List.mem_cons.mp ht with
          | inl heq =>
              subst heq
              exact ⟨[], _, by simpa using hsplit, rfl, by simp⟩
          | inr hmem =>
              obtain ⟨front, behind, htext, hstart, hstop⟩ := exists_front t hmem
              refine ⟨c :: (lexeme c rest).2 ++ front, behind, ?_, ?_, hstop⟩
              · have htext : rest.drop (lexeme c rest).2.length =
                    front ++ t.literal.toList ++ behind := htext
                simp only [hsplit, htext, List.append_assoc]
              · rw [hstart, byteLength_append, Nat.add_assoc]
termination_by s.rest.length

theorem byteLength_eq_utf8ByteSize (text : List Char) :
    byteLength text = (String.ofList text).utf8ByteSize := by
  induction text with
  | nil => rfl
  | cons c text ih =>
      rw [byteLength_cons, ih, String.ofList_cons, String.utf8ByteSize_append,
        String.utf8ByteSize_singleton]

/-! ## Lines and columns -/

/-- Behind `offset` characters, in the line with `index` lines in front of it and `column` of its
own characters. The end of the text is in the last line. -/
def InColumn (lines : List (List Char)) (offset index column : Nat) : Prop :=
  ∃ before line after, lines = before ++ line :: after ∧ before.length = index ∧
    offset = before.flatten.length + column ∧
      (column < line.length ∨ after = [] ∧ column = line.length)

theorem InColumn.offset_inj {lines : List (List Char)} {offset offset' index column : Nat}
    (h : InColumn lines offset index column) (h' : InColumn lines offset' index column) :
    offset = offset' := by
  obtain ⟨before, line, after, hlines, hlength, rfl, _⟩ := h
  obtain ⟨before', line', after', hlines', hlength', rfl, _⟩ := h'
  have hbefore := (List.append_inj (hlines.symm.trans hlines') (hlength.trans hlength'.symm)).1
  rw [hbefore]

theorem Place.exists_ofOffset? (lines : List (List Char)) (offset : Nat) (hne : lines ≠ [])
    (hle : offset ≤ lines.flatten.length) :
    ∃ place, Place.ofOffset? offset lines = some place ∧
      InColumn lines offset place.index place.column := by
  match lines with
  | [line] =>
      refine ⟨_, rfl, [], line, [], rfl, rfl, (Nat.zero_add _).symm, ?_⟩
      simp only [List.flatten_cons, List.flatten_nil, List.append_nil] at hle
      exact (Nat.lt_or_eq_of_le hle).imp_right fun heq => ⟨rfl, heq⟩
  | line :: next :: more =>
      rw [Place.ofOffset?]
      split
      · next hlt =>
        exact ⟨_, rfl, [], line, next :: more, rfl, rfl, (Nat.zero_add _).symm, .inl hlt⟩
      · next hge =>
        have hle' : offset - line.length ≤ (next :: more).flatten.length := by
          rw [List.flatten_cons, List.length_append] at hle
          omega
        obtain ⟨place, hplace, before, current, after, hlines, hindex, hoffset, hcolumn⟩ :=
          exists_ofOffset? (next :: more) (offset - line.length) nofun hle'
        rw [hplace]
        refine ⟨_, rfl, line :: before, current, after, ?_, ?_, ?_, hcolumn⟩
        · rw [hlines, List.cons_append]
        · rw [List.length_cons, hindex]
        · have hsum : offset = line.length + (before.flatten.length + place.column) := by omega
          rw [List.flatten_cons, List.length_append, Nat.add_assoc]
          exact hsum

theorem lines_ne_nil {text : List Char} (h : text ≠ []) : lines text ≠ [] := by
  intro hnil
  apply h
  rw [← flatten_lines text, hnil, List.flatten_nil]

end ClosureLang
