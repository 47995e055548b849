import ClosureLang.Token.Basic

/-!
# Scanning

A source text is cut into tokens from left to right, each as long as it can be, with blanks between
them.
-/

namespace ClosureLang

/-- The characters that only separate tokens. -/
def isBlank (c : Char) : Bool :=
  c == ' ' || c == '\t' || c == '\n' || c == '\r'

/-- The length of a text in bytes. -/
def byteLength (text : List Char) : Nat :=
  text.foldr (fun c bytes => c.utf8Size + bytes) 0

/-- The kind of a word: a keyword's own, or an identifier. -/
def wordKind (word : List Char) : Kind :=
  match word with
  | ['f', 'n'] => .fnWord
  | ['l', 'e', 't'] => .letWord
  | ['t', 'r', 'u', 'e'] => .trueWord
  | ['f', 'a', 'l', 's', 'e'] => .falseWord
  | ['i', 'f'] => .ifWord
  | ['e', 'l', 's', 'e'] => .elseWord
  | ['r', 'e', 't', 'u', 'r', 'n'] => .returnWord
  | _ => .identifier

/-- The kind of a token of one character, `illegal` if the character is none. -/
def symbolKind (c : Char) : Kind :=
  match c with
  | '=' => .assign
  | '+' => .plus
  | '-' => .minus
  | '!' => .bang
  | '*' => .asterisk
  | '/' => .slash
  | '<' => .less
  | '>' => .greater
  | ',' => .comma
  | ';' => .semicolon
  | '(' => .leftParen
  | ')' => .rightParen
  | '{' => .leftBrace
  | '}' => .rightBrace
  | _ => .illegal

/-- The operator that `c` forms with an `=` behind it. -/
def withEqualSign? (c : Char) : Option Kind :=
  match c with
  | '=' => some .equal
  | '!' => some .notEqual
  | '<' => some .lessEqual
  | '>' => some .greaterEqual
  | _ => none

/-- The token that begins with `c`: its kind and its further characters, a part of `rest`. Words are
runs of ASCII letters, numbers runs of ASCII digits. -/
def lexeme (c : Char) (rest : List Char) : Kind × List Char :=
  if c.isAlpha then
    let tail := rest.takeWhile Char.isAlpha
    (wordKind (c :: tail), tail)
  else if c.isDigit then
    (.integer, rest.takeWhile Char.isDigit)
  else
    match rest.head?, withEqualSign? c with
    | some '=', some kind => (kind, ['='])
    | _, _ => (symbolKind c, [])

/-- The text still to be cut, and the number of bytes in front of it. -/
structure Scanner where
  rest : List Char
  offset : Nat

namespace Scanner

def ofString (source : String) : Scanner :=
  ⟨source.toList, 0⟩

/-- Reads the next token. At the end of the text that is the `eof` token, again and again. -/
def next (s : Scanner) : Token × Scanner :=
  let start := s.offset + byteLength (s.rest.takeWhile isBlank)
  match s.rest.dropWhile isBlank with
  | [] => (.eof start, ⟨[], start⟩)
  | c :: rest =>
    let (kind, tail) := lexeme c rest
    let stop := start + byteLength (c :: tail)
    (⟨kind, String.ofList (c :: tail), ⟨start, stop⟩⟩, ⟨rest.drop tail.length, stop⟩)

theorem length_dropWhile_le (p : Char → Bool) (text : List Char) :
    (text.dropWhile p).length ≤ text.length :=
  (List.dropWhile_sublist p).length_le

/-- A token that is not the end has used up some of the text. -/
theorem length_next_lt {s : Scanner} (h : s.next.1.kind ≠ .eof) :
    s.next.2.rest.length < s.rest.length := by
  have hle := length_dropWhile_le isBlank s.rest
  revert h
  simp only [next]
  split
  · intro h
    exact absurd rfl h
  · next c rest hrest =>
    intro _
    rw [hrest] at hle
    simp only [List.length_cons, List.length_drop] at hle ⊢
    omega

/-- The tokens up to the end, which is left out. -/
def tokens (s : Scanner) : List Token :=
  if s.next.1.kind = .eof then []
  else s.next.1 :: s.next.2.tokens
termination_by s.rest.length
decreasing_by exact length_next_lt ‹_›

end Scanner

/-- The tokens of a source text, without the end. -/
def scan (source : String) : List Token :=
  (Scanner.ofString source).tokens

/-- The token for the end of a source text. -/
def endToken (source : String) : Token :=
  .eof source.utf8ByteSize

end ClosureLang
