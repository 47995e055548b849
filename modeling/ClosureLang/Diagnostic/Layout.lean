import ClosureLang.Diagnostic.Line
import ClosureLang.Syntax.Error
import ClosureLang.Text.WhiteSpace

/-!
# Diagnostics

A syntax error, drawn under the source line that it concerns.

Spans count bytes, but the drawing takes their numbers for numbers of characters. The two agree up
to the first character that is not ASCII.
-/

namespace ClosureLang

/-- A source line with the row that underlines the span and the row that leads to the message. -/
structure Excerpt where
  shown : String
  underline : String
  lead : String

structure Details where
  /-- The line and the column, both counted from one. -/
  line : Nat
  column : Nat
  /-- There is none if the span goes on behind its line. -/
  excerpt : Option Excerpt

/-- The details are missing if the span lies outside the text. -/
structure Diagnostic where
  filename : String
  message : String
  help : Option String
  details : Option Details

namespace Diagnostic

/-! ## Columns of a source line -/

/-- The number of cells that a character takes in a column. A tab fills up to the next multiple of
four, and any other character is taken to have one cell. Behind wide characters and those that have
no width the underline is therefore off. -/
def width (c : Char) (column : Nat) : Nat :=
  if c = '\t' then (column / 4 + 1) * 4 - column else 1

/-- How a character is shown in a column. -/
def cells (c : Char) (column : Nat) : List Char :=
  if isWhiteSpace c then List.replicate (width c column) ' ' else [c]

/-- The widths of the first `columns` columns of a line. Beyond the line, columns have one cell. -/
def widths (line : List Char) (columns : Nat) : List Nat :=
  (line.mapIdx fun column c => width c column).take columns ++
    List.replicate (columns - line.length) 1

/-- A row over the columns of a line, and beyond it: `mark` fills the first cell of a column, and
`fill` its other ones. -/
def row (line : List Char) (columns : Nat) (mark fill : Nat → Char) : String :=
  String.ofList <| List.flatten <| (widths line columns).mapIdx fun column cells =>
    mark column :: List.replicate (cells - 1) (fill column)

/-- The excerpt for the columns from `start` up to `stop` of a line. The lead begins in the middle
of them, and the rows are two columns longer. -/
def excerpt (line : List Char) (start stop middle : Nat) : Excerpt :=
  let line := trimEnd line
  let isUnderlined (column : Nat) : Bool := start ≤ column ∧ column < stop
  let fill (column : Nat) := if isUnderlined column then '─' else ' '
  { shown := String.ofList (line.mapIdx fun column c => cells c column).flatten
    underline := row line (stop + 2)
      (fun column => if column = middle then '┬' else fill column)
      fill
    lead := row line (stop + 2)
      (fun column => if column = middle then '╰' else if middle < column then '─' else ' ')
      (fun column => if middle ≤ column then '─' else ' ') }

/-! ## From an error to its diagnostic -/

/-- The details for a span. At most one line is shown: a span that goes over the end of its line has
no excerpt, also where there are lines below. -/
def details? (span : Span) (source : String) : Option Details :=
  let text := source.toList
  if span.start ≤ text.length ∧ span.stop ≤ text.length + 1 then
    (Place.ofOffset? span.start (lines text)).map fun place =>
      let offset := span.start - place.column
      { line := place.index + 1
        column := place.column + 1
        excerpt :=
          if span.stop ≤ offset + place.line.length then
            some (excerpt place.line place.column (span.stop - offset)
              ((span.start + span.stop) / 2 - offset))
          else none }
  else none

/-- The diagnostic for an error in a source, which has the name of its file or none. -/
def ofError (error : SyntaxError) (source : String) (filename : Option String) : Diagnostic where
  filename := filename.getD "<repl>"
  message := error.message
  help := error.help
  details := details? error.span source

/-! ## Drawing -/

/-- The rows behind the headline. The margin has room for the line number. -/
def detailRows (diagnostic : Diagnostic) (details : Details) : List String :=
  let number := toString details.line
  let room := number.length + 2
  let indent := String.ofList (List.replicate room ' ')
  let position := diagnostic.filename ++ ":" ++ number ++ ":" ++ toString details.column
  let drawing :=
    match details.excerpt with
    | some excerpt =>
      [" " ++ number ++ " │ " ++ excerpt.shown,
        indent ++ "│ " ++ excerpt.underline,
        indent ++ "│ " ++ excerpt.lead ++ " " ++ diagnostic.message]
    | none => [indent ++ "│ "]
  let note :=
    match diagnostic.help with
    | some help => [indent ++ "│ ", indent ++ "│ Note: help: " ++ help]
    | none => []
  [indent ++ "╭─[" ++ position ++ "]", indent ++ "│"] ++ drawing ++ note ++
    [String.ofList (List.replicate room '─') ++ "╯"]

def rows (diagnostic : Diagnostic) : List String :=
  ("Error: Parse Error: " ++ diagnostic.message) ::
    match diagnostic.details with
    | some details => diagnostic.detailRows details
    | none => []

def text (diagnostic : Diagnostic) : String :=
  String.join (diagnostic.rows.map (· ++ "\n"))

end Diagnostic

/-- The diagnostics of several errors, one after another. -/
def reportAll (errors : List SyntaxError) (source : String) (filename : Option String) : String :=
  String.join (errors.map fun error => (Diagnostic.ofError error source filename).text)

end ClosureLang
