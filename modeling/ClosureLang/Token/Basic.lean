/-!
# Tokens

What a token is, where it stands and how it was spelled. A span counts bytes of the UTF-8 form of
the source and leaves its end out.
-/

namespace ClosureLang

structure Span where
  start : Nat
  stop : Nat
deriving DecidableEq

/-- The kinds of token. The two-character operators are kinds of their own. -/
inductive Kind
  | illegal
  | eof
  | identifier
  | integer
  | assign
  | plus
  | minus
  | bang
  | asterisk
  | slash
  | less
  | greater
  | lessEqual
  | greaterEqual
  | equal
  | notEqual
  | comma
  | semicolon
  | leftParen
  | rightParen
  | leftBrace
  | rightBrace
  | fnWord
  | letWord
  | trueWord
  | falseWord
  | ifWord
  | elseWord
  | returnWord
deriving DecidableEq

namespace Kind

/-- The name of the kind in messages. -/
def label : Kind → String
  | illegal => "ILLEGAL"
  | eof => "EOF"
  | identifier => "IDENT"
  | integer => "INT"
  | assign => "="
  | plus => "+"
  | minus => "-"
  | bang => "!"
  | asterisk => "*"
  | slash => "/"
  | less => "<"
  | greater => ">"
  | lessEqual => "<="
  | greaterEqual => ">="
  | equal => "=="
  | notEqual => "!="
  | comma => ","
  | semicolon => ";"
  | leftParen => "("
  | rightParen => ")"
  | leftBrace => "\x7b"
  | rightBrace => "\x7d"
  | fnWord => "FUNCTION"
  | letWord => "LET"
  | trueWord => "TRUE"
  | falseWord => "FALSE"
  | ifWord => "IF"
  | elseWord => "ELSE"
  | returnWord => "RETURN"

/-- Every kind, once each. -/
def all : List Kind :=
  [illegal, eof, identifier, integer, assign, plus, minus, bang, asterisk, slash, less, greater,
    lessEqual, greaterEqual, equal, notEqual, comma, semicolon, leftParen, rightParen, leftBrace,
    rightBrace, fnWord, letWord, trueWord, falseWord, ifWord, elseWord, returnWord]

theorem mem_all (kind : Kind) : kind ∈ all := by
  cases kind <;> decide

end Kind

structure Token where
  kind : Kind
  literal : String
  span : Span
deriving DecidableEq

/-- The token that stands for the end of a source of `length` bytes: it has no text, and its span is
the byte after the last one. -/
def Token.eof (length : Nat) : Token :=
  ⟨.eof, "", ⟨length, length + 1⟩⟩

end ClosureLang
