import ClosureLang.Parser.Rules
import ClosureLang.Token.Scanner

/-!
# Parsing a source text
-/

namespace ClosureLang

/-- What parsing gives: the statements that could be read, the errors in the order of recording, and
the rules in the order in which they were entered and left. -/
structure Parsed where
  program : Program
  errors : List SyntaxError
  trace : List TraceEvent

/-- A parser at the first token of a source text. -/
def Parser.State.ofString (source : String) : Parser.State :=
  ⟨scan source, endToken source, [], []⟩

/-- Parses a source text. An expression inside another one starts at a later token, so that the
number of tokens bounds the depth. -/
def parse (source : String) : Parsed :=
  let start := Parser.State.ofString source
  match Parser.program (start.tokens.length + 1) start with
  | .ok program s => ⟨program, s.errors.reverse, s.trace.reverse⟩
  | .error _ s => ⟨⟨[]⟩, s.errors.reverse, s.trace.reverse⟩

end ClosureLang
