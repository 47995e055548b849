import ClosureLang.Proofs.Locating.Headers
import ClosureLang.Proofs.Scanning.Lexical

/-!
# What a diagnostic draws

The rows of a diagnostic for a word in a line, with the cells that are underlined. Nothing here is
measured by the drawing itself.
-/

namespace ClosureLang

/-- ASCII, and neither a vertical tab nor a form feed. -/
structure IsPlain (c : Char) : Prop where
  ascii : c.toNat < 128
  ne_verticalTab : c ≠ '\x0b'
  ne_formFeed : c ≠ '\x0c'

instance (c : Char) : Decidable (IsPlain c) :=
  decidable_of_iff (c.toNat < 128 ∧ c ≠ '\x0b' ∧ c ≠ '\x0c')
    ⟨fun ⟨hascii, hv, hf⟩ => ⟨hascii, hv, hf⟩, fun ⟨hascii, hv, hf⟩ => ⟨hascii, hv, hf⟩⟩

namespace Diagnostic

/-! ## Lines as they are shown -/

/-- What is seen of a character with `column` others in front of it in its line. A tab fills up to
the next multiple of four columns. -/
def seen (c : Char) (column : Nat) : List Char :=
  if c = '\t' then List.replicate (4 - column % 4) ' ' else [c]

/-- A line with blanks for its tabs. -/
def expand (line : List Char) : List Char :=
  (line.mapIdx fun column c => seen c column).flatten

/-- A line without the blanks at its end. -/
structure Trims (line trimmed : List Char) : Prop where
  blanks : ∃ behind, line = trimmed ++ behind ∧ ∀ c ∈ behind, c ∈ blankCharacters
  last : ∀ c ∈ trimmed.getLast?, c ∉ blankCharacters

/-- A row that has `before + 1 + behind` cells underlined behind `indent` others. The label is
anchored behind `before` of them. -/
def underline (indent before behind rest : Nat) : List Char :=
  List.replicate indent ' ' ++
    (List.replicate before '─' ++ '┬' :: List.replicate behind '─') ++ List.replicate rest ' '

/-! ## Rows -/

/-- What a source line is shown behind. -/
def numberedMargin (line : Nat) : String :=
  " " ++ toString line ++ " │ "

/-- What the other rows are drawn behind. -/
def blankMargin (line : Nat) : String :=
  String.ofList (List.replicate ((toString line).length + 2) ' ') ++ "│ "

/-- The row with a help text. -/
def note (line : Nat) (help : String) : String :=
  blankMargin line ++ "Note: help: " ++ help

/-- The line with `index` others above it is shown, but for the blanks at its end, and a word in it
stands behind what is in front of it. In the row below exactly the cells of the word are underlined,
and the label is anchored at one of them. -/
structure Underlines (diagnostic : Diagnostic) (index : Nat) (left word right : List Char) :
    Prop where
  header : diagnostic.Prints (header diagnostic.filename (index + 1) (left.length + 1))
  shown : ∃ line, Trims (left ++ word ++ right) line ∧
    (∃ more, expand line = expand left ++ word ++ more) ∧
    diagnostic.rows[3]? = some (numberedMargin (index + 1) ++ String.ofList (expand line))
  underlined : ∃ before behind rest, before + 1 + behind = word.length ∧ diagnostic.rows[4]? =
    some (blankMargin (index + 1) ++
      String.ofList (underline (expand left).length before behind rest))

/-- A source line is shown in one of the rows. -/
def ShowsLine (diagnostic : Diagnostic) : Prop :=
  ∃ line, ∃ row ∈ diagnostic.rows, (numberedMargin line).toList <+: row.toList

end Diagnostic

end ClosureLang
