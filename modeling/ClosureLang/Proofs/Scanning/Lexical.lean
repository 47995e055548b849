import ClosureLang.Token.Scanner

/-!
# The lexical grammar

Which texts are tokens, and how a text is laid out with tokens. The grammar does not know how a
scanner goes about it; only the readings at the end are those of a scanner.
-/

namespace ClosureLang

/-- The words that are no identifiers. -/
def keywords : List (String × Kind) :=
  [("fn", .fnWord), ("let", .letWord), ("true", .trueWord), ("false", .falseWord),
    ("if", .ifWord), ("else", .elseWord), ("return", .returnWord)]

/-- The characters that are tokens on their own. -/
def symbols : List (Char × Kind) :=
  [('=', .assign), ('+', .plus), ('-', .minus), ('!', .bang), ('*', .asterisk), ('/', .slash),
    ('<', .less), ('>', .greater), (',', .comma), (';', .semicolon), ('(', .leftParen),
    (')', .rightParen), ('{', .leftBrace), ('}', .rightBrace)]

/-- The characters that are one token together with an `=` behind them. -/
def signs : List (Char × Kind) :=
  [('=', .equal), ('!', .notEqual), ('<', .lessEqual), ('>', .greaterEqual)]

/-- The characters that only stand between tokens. -/
def blankCharacters : List Char :=
  [' ', '\t', '\n', '\r']

/-- The characters with which no token begins. -/
structure IsStray (c : Char) : Prop where
  not_blank : c ∉ blankCharacters
  not_letter : c.isAlpha = false
  not_digit : c.isDigit = false
  not_symbol : ∀ kind, (c, kind) ∉ symbols

/-- The texts of the tokens of each kind. -/
inductive Lexical : Kind → List Char → Prop
  | keyword {word kind} :
      (String.ofList word, kind) ∈ keywords → Lexical kind word
  | identifier {word} :
      word ≠ [] → (∀ c ∈ word, c.isAlpha = true) →
      (∀ kind, (String.ofList word, kind) ∉ keywords) → Lexical .identifier word
  | integer {digits} :
      digits ≠ [] → (∀ c ∈ digits, c.isDigit = true) → Lexical .integer digits
  | pair {c kind} : (c, kind) ∈ signs → Lexical kind [c, '=']
  | symbol {c kind} : (c, kind) ∈ symbols → Lexical kind [c]
  | illegal {c} : IsStray c → Lexical .illegal [c]

/-- A token in front of `rest` that could not be longer. -/
structure Longest (kind : Kind) (text rest : List Char) : Prop where
  lexical : Lexical kind text
  longest : ∀ {more behind other}, rest = more ++ behind → Lexical other (text ++ more) → more = []

/-- The layout of a text that begins behind `offset` bytes: blanks, a token that could not be
longer, and so on, with blanks behind the last token. The span of a token says where it stands in
bytes. -/
inductive Tiling : Nat → List Char → List Token → Prop
  | blanks {offset text} : (∀ c ∈ text, c ∈ blankCharacters) → Tiling offset text []
  | token {offset blanks kind word rest tokens} :
      (∀ c ∈ blanks, c ∈ blankCharacters) → Longest kind word rest →
      Tiling (offset + byteLength blanks + byteLength word) rest tokens →
      Tiling offset (blanks ++ word ++ rest)
        (⟨kind, String.ofList word, ⟨offset + byteLength blanks,
          offset + byteLength blanks + byteLength word⟩⟩ :: tokens)

/-- A span goes over a text, from the boundary of a character to the boundary of a character. -/
def Span.Covers (span : Span) (source text : List Char) : Prop :=
  ∃ front rest, source = front ++ text ++ rest ∧ span.start = byteLength front ∧
    span.stop = byteLength (front ++ text)

/-! ## Readings -/

namespace Scanner

/-- The scanner behind the first `n` readings. -/
def after (s : Scanner) : Nat → Scanner
  | 0 => s
  | n + 1 => s.next.2.after n

/-- The reading behind the first `n`. -/
def reading (s : Scanner) (n : Nat) : Token :=
  (s.after n).next.1

end Scanner

end ClosureLang
