/-!
# Lines

The lines of a text, and the place of a character in them.
-/

namespace ClosureLang

/-- The characters that end a line: line feed, vertical tab, form feed, carriage return, next line,
line separator and paragraph separator. -/
def isLineEnd (c : Char) : Bool :=
  c ∈ ['\n', '\x0b', '\x0c', '\r', '\u0085', '\u2028', '\u2029']

/-- The lines of a text, each with the character that ends it. A carriage return and the line feed
behind it end one line together. -/
def lines : List Char → List (List Char)
  | [] => []
  | '\r' :: '\n' :: rest => ['\r', '\n'] :: lines rest
  | c :: rest =>
    if isLineEnd c then [c] :: lines rest
    else
      match lines rest with
      | [] => [[c]]
      | line :: more => (c :: line) :: more

theorem flatten_lines (text : List Char) : (lines text).flatten = text := by
  fun_induction lines text with
  | case1 => rfl
  | case2 rest ih => simp [ih]
  | case3 c rest _ _ ih => simp [ih]
  | case4 c rest _ _ none ih => simpa [none] using ih
  | case5 c rest _ _ line more some ih => simpa [some] using ih

/-- A place in a text: the number of lines in front of its line, the number of characters in front
of it in its line, and the line. -/
structure Place where
  index : Nat
  column : Nat
  line : List Char

/-- The place `offset` characters behind the start of the first of the given lines. What lies behind
the last line counts as a part of it. -/
def Place.ofOffset? (offset : Nat) : List (List Char) → Option Place
  | [] => none
  | [line] => some ⟨0, offset, line⟩
  | line :: next :: more =>
    if offset < line.length then some ⟨0, offset, line⟩
    else
      (ofOffset? (offset - line.length) (next :: more)).map
        fun place => { place with index := place.index + 1 }

end ClosureLang
