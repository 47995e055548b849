import ClosureLang.Proofs.Grammar.Theorems
import ClosureLang.Proofs.Locating.Headers
import ClosureLang.Proofs.Locating.Places
import ClosureLang.Proofs.Provenance.Lemmas.Rules

/-!
# Which headers point at their token

A header counts characters, and the span that it is drawn from counts bytes.
-/

namespace ClosureLang

/-! ## Bytes and characters -/

theorem utf8Size_eq_one_iff {c : Char} : c.utf8Size = 1 ↔ c.toNat < 128 := by
  rw [Char.utf8Size_eq_one_iff, UInt32.le_iff_toNat_le]
  exact Nat.lt_succ_iff.symm

theorem length_le_byteLength (text : List Char) : text.length ≤ byteLength text := by
  induction text with
  | nil => exact Nat.le_refl 0
  | cons c text ih =>
      have hc := c.utf8Size_pos
      rw [List.length_cons, byteLength_cons]
      omega

/-- A text has as many bytes as characters if it is all ASCII. -/
theorem byteLength_eq_length_iff {text : List Char} :
    byteLength text = text.length ↔ ∀ c ∈ text, c.toNat < 128 := by
  induction text with
  | nil => simp [byteLength]
  | cons c text ih =>
      have hc := c.utf8Size_pos
      have hle := length_le_byteLength text
      rw [List.forall_mem_cons, ← ih, ← utf8Size_eq_one_iff, byteLength_cons, List.length_cons]
      omega

/-! ## Tokens of a source -/

namespace Token.IsOf

variable {source : String} {token : Token}

theorem exists_front (h : token.IsOf source) : ∃ front, token.StandsBehind source front := by
  rcases h with hmem | rfl
  · obtain ⟨front, rest, htext, hstart, _⟩ := Scanner.exists_front token hmem
    refine ⟨front, ⟨rest, htext, fun hk => ?_⟩, hstart.trans (Nat.zero_add _)⟩
    exact absurd hk (Scanner.kind_ne_eof _ token hmem)
  · refine ⟨source.toList, ⟨[], by simp [endToken, Token.eof], fun _ => rfl⟩, ?_⟩
    rw [byteLength_eq_utf8ByteSize, String.ofList_toList]
    rfl

theorem stop_le (h : token.IsOf source) : token.span.stop ≤ byteLength source.toList + 1 := by
  rcases h with hmem | rfl
  · obtain ⟨front, rest, htext, hstart, hstop⟩ := Scanner.exists_front token hmem
    have htext : source.toList = front ++ token.literal.toList ++ rest := htext
    have hstart : token.span.start = 0 + byteLength front := hstart
    rw [htext, byteLength_append, byteLength_append, hstop, hstart]
    omega
  · rw [byteLength_eq_utf8ByteSize, String.ofList_toList]
    exact Nat.le_refl _

end Token.IsOf

theorem Token.StandsBehind.length_le {source : String} {front : List Char} {token : Token}
    (h : token.StandsBehind source front) : front.length ≤ source.toList.length := by
  obtain ⟨rest, htext, _⟩ := h.text
  rw [htext, List.length_append, List.length_append]
  omega

/-! ## Details -/

namespace Diagnostic

variable {span : Span} {source : String} {place : Place}

theorem exists_details (hstart : span.start ≤ source.toList.length)
    (hstop : span.stop ≤ source.toList.length + 1)
    (hplace : Place.ofOffset? span.start (lines source.toList) = some place) :
    ∃ details, details? span source = some details ∧ details.line = place.index + 1 ∧
      details.column = place.column + 1 := by
  rw [details?, if_pos ⟨hstart, hstop⟩, hplace]
  exact ⟨_, rfl, rfl, rfl⟩

theorem details?_outside
    (h : ¬ (span.start ≤ source.toList.length ∧ span.stop ≤ source.toList.length + 1)) :
    details? span source = none :=
  if_neg h

theorem exists_place (hne : source.toList ≠ []) {offset : Nat}
    (hle : offset ≤ source.toList.length) :
    ∃ place, Place.ofOffset? offset (lines source.toList) = some place ∧
      InColumn (lines source.toList) offset place.index place.column := by
  rw [← flatten_lines source.toList] at hle
  exact Place.exists_ofOffset? _ offset (lines_ne_nil hne) hle

/-- A diagnostic prints the header of a place if its span starts there, its number taken for one of
characters, and does not go further than one byte over the end of the text. -/
theorem prints_header_iff (error : SyntaxError) (filename : Option String) {offset : Nat}
    (hne : source.toList ≠ []) (hle : offset ≤ source.toList.length)
    (hplace : Place.ofOffset? offset (lines source.toList) = some place)
    (hcolumn : InColumn (lines source.toList) offset place.index place.column) :
    (ofError error source filename).Prints
        (header (filename.getD "<repl>") (place.index + 1) (place.column + 1)) ↔
      error.span.start = offset ∧ error.span.stop ≤ source.toList.length + 1 := by
  have hdetails : (ofError error source filename).details = details? error.span source := rfl
  have hname : (ofError error source filename).filename = filename.getD "<repl>" := rfl
  rw [prints_iff, hdetails, hname]
  constructor
  · rintro ⟨details, hsome, hheader⟩
    by_cases hin : error.span.start ≤ source.toList.length ∧
        error.span.stop ≤ source.toList.length + 1
    · obtain ⟨other, hother, hcolumn'⟩ := exists_place hne hin.1
      obtain ⟨_, hsome', hl', hc'⟩ := exists_details hin.1 hin.2 hother
      obtain rfl := Option.some.inj (hsome.symm.trans hsome')
      obtain ⟨hl, hc⟩ := header_inj hheader
      have hindex : other.index = place.index := Nat.succ.inj (hl'.symm.trans hl)
      have hsame : other.column = place.column := Nat.succ.inj (hc'.symm.trans hc)
      rw [hindex, hsame] at hcolumn'
      exact ⟨hcolumn'.offset_inj hcolumn, hin.2⟩
    · rw [details?_outside hin] at hsome
      cases hsome
  · rintro ⟨rfl, hstop⟩
    obtain ⟨details, hsome, hl, hc⟩ := exists_details hle hstop hplace
    exact ⟨details, hsome, by rw [hl, hc]⟩

end Diagnostic

theorem source_ne_nil_of_mem_errors {source : String} {error : SyntaxError}
    (h : error ∈ (parse source).errors) : source.toList ≠ [] := by
  intro hnil
  obtain rfl : source = "" := String.toList_eq_nil_iff.mp hnil
  have hnone : (parse "").errors = [] := by decide +kernel
  rw [hnone] at h
  cases h

/-- The header of an error points at the first character of the token that is to blame, or at the
end of the text if that is, exactly if all characters in front are ASCII and the bytes of the token
do not go further than one over the end. In an ASCII text it always does. -/
theorem header_points_at_token_iff (source : String) (filename : Option String)
    (error : SyntaxError) (h : error ∈ (parse source).errors) :
    error.blamed.IsOf source ∧ ∃ front index column,
      error.blamed.StandsBehind source front ∧
      InColumn (lines source.toList) front.length index column ∧
      ((Diagnostic.ofError error source filename).Prints
          (Diagnostic.header (filename.getD "<repl>") (index + 1) (column + 1)) ↔
        (∀ c ∈ front, c.toNat < 128) ∧ error.span.stop ≤ source.length + 1) ∧
      ((∀ c ∈ source.toList, c.toNat < 128) →
        (Diagnostic.ofError error source filename).Prints
          (Diagnostic.header (filename.getD "<repl>") (index + 1) (column + 1))) := by
  have hof := (parse_within_source source).2 error h
  obtain ⟨front, hfront⟩ := hof.exists_front
  obtain ⟨place, hplace, hcolumn⟩ :=
    Diagnostic.exists_place (source_ne_nil_of_mem_errors h) hfront.length_le
  have hstart : error.span.start = byteLength front := hfront.start
  have hprints := Diagnostic.prints_header_iff error filename (source_ne_nil_of_mem_errors h)
    hfront.length_le hplace hcolumn
  rw [hstart, byteLength_eq_length_iff, String.length_toList] at hprints
  refine ⟨hof, front, place.index, place.column, hfront, hcolumn, hprints, fun hascii => ?_⟩
  obtain ⟨rest, htext, _⟩ := hfront.text
  refine hprints.mpr ⟨fun c hc => hascii c ?_, ?_⟩
  · rw [htext]
    exact List.mem_append_left _ (List.mem_append_left _ hc)
  · have hstop := hof.stop_le
    rwa [byteLength_eq_length_iff.mpr hascii, String.length_toList] at hstop

/-- A number that stands where an equal sign is missing. -/
def missingSign (start : Nat) : SyntaxError :=
  ⟨⟨.integer, "5", ⟨start, start + 1⟩⟩, .expected .assign none⟩

theorem second_line_is_pointed_at :
    missingSign 17 ∈ (parse "let a = 1;\nlet x 5;").errors ∧ ∃ front index column,
      (missingSign 17).blamed.StandsBehind "let a = 1;\nlet x 5;" front ∧
      InColumn (lines "let a = 1;\nlet x 5;".toList) front.length index column ∧
      (Diagnostic.ofError (missingSign 17) "let a = 1;\nlet x 5;" none).Prints
        (Diagnostic.header "<repl>" (index + 1) (column + 1)) ∧
      (Diagnostic.ofError (missingSign 17) "let a = 1;\nlet x 5;" none).rows[1]? =
        some "   ╭─[<repl>:2:7]" := by
  have herror : missingSign 17 ∈ (parse "let a = 1;\nlet x 5;").errors := by decide +kernel
  have hascii : "let a = 1;\nlet x 5;".toList.all (·.toNat < 128) = true := by decide +kernel
  obtain ⟨_, front, index, column, hfront, hplace, _, hprints⟩ :=
    header_points_at_token_iff "let a = 1;\nlet x 5;" none _ herror
  refine ⟨herror, front, index, column, hfront, hplace, hprints fun c hc => ?_, by decide +kernel⟩
  exact of_decide_eq_true (List.all_eq_true.mp hascii c hc)

/-- The number is in column 9, and the header says 10: a letter in front of it has two bytes. -/
theorem header_not_always_at_token :
    ¬ ∀ source filename error, error ∈ (parse source).errors → ∀ front index column,
      error.blamed.StandsBehind source front →
      InColumn (lines source.toList) front.length index column →
      (Diagnostic.ofError error source filename).Prints
        (Diagnostic.header (filename.getD "<repl>") (index + 1) (column + 1)) := by
  intro h
  have hfront : (missingSign 9).blamed.StandsBehind "é let x 5;" "é let x ".toList :=
    ⟨⟨[';'], by decide +kernel, nofun⟩, by decide +kernel⟩
  have hplace : InColumn (lines "é let x 5;".toList) "é let x ".toList.length 0 8 :=
    ⟨[], "é let x 5;".toList, [], by decide +kernel, rfl, by decide +kernel,
      .inl (by decide +kernel)⟩
  have hprints : (Diagnostic.ofError (missingSign 9) "é let x 5;" none).rows[1]? =
      some (Diagnostic.header "<repl>" 1 9) :=
    h _ none _ (by decide +kernel) _ _ _ hfront hplace
  exact absurd hprints (by decide +kernel)

end ClosureLang
