import ClosureLang.Token.Basic

/-!
# Syntax errors

Which token is to blame, and why.
-/

namespace ClosureLang

/-- What a reader may have to be told about the construct in which a token is missing. -/
inductive Hint
  | openCondition
  | closeCondition
  | consequence
  | alternative
  | parameters
  | body
  | closeArguments
deriving DecidableEq

def Hint.text : Hint → String
  | openCondition =>
    "If expressions require parentheses around the condition: if (condition) \x7b ... \x7d"
  | closeCondition =>
    "If conditions must be enclosed in parentheses: if (condition) \x7b ... \x7d"
  | consequence =>
    "The body of an if expression must be a block: if (condition) \x7b ... \x7d"
  | alternative =>
    "The else branch must be a block: if (condition) \x7b ... \x7d else \x7b ... \x7d"
  | parameters =>
    "Function literals list their parameters in parentheses: fn(x, y) \x7b ... \x7d"
  | body =>
    "The body of a function literal must be a block: fn(x, y) \x7b ... \x7d"
  | closeArguments =>
    "Call arguments must be closed with ')'. Example: add(1, 2)"

namespace SyntaxError

inductive Cause
  /-- Another kind of token has to stand here. -/
  | expected (wanted : Kind) (hint : Option Hint)
  /-- No expression begins with this token. -/
  | cannotStart
  /-- The number is too large. -/
  | outOfRange
  /-- The source ends inside the block that `opening` opened. -/
  | unclosed (opening : Token)
deriving DecidableEq

end SyntaxError

structure SyntaxError where
  blamed : Token
  cause : SyntaxError.Cause
deriving DecidableEq

namespace SyntaxError

def span (error : SyntaxError) : Span :=
  error.blamed.span

/-- A block that is not closed misses a right brace. -/
def message (error : SyntaxError) : String :=
  let found := error.blamed.kind.label
  let missing (wanted : Kind) :=
    "expected next token to be " ++ wanted.label ++ ", got " ++ found ++ " instead"
  match error.cause with
  | .expected wanted _ => missing wanted
  | .cannotStart => "no prefix parse function for " ++ found ++ " found"
  | .outOfRange => "could not parse " ++ error.blamed.literal ++ " as integer"
  | .unclosed _ => missing .rightBrace

def help (error : SyntaxError) : Option String :=
  match error.cause with
  | .expected _ hint => hint.map Hint.text
  | .cannotStart =>
    if error.blamed.kind = .eof then some "The input ended where an expression was expected."
    else some ("'" ++ error.blamed.literal ++ "' cannot start an expression.")
  | .outOfRange =>
    some ("Integer literals must not exceed " ++ toString Int64.maxValue.toInt ++ ".")
  | .unclosed opening =>
    some ("The block opened at offset " ++ toString opening.span.start ++ " is never closed.")

end SyntaxError

end ClosureLang
