import ClosureLang.Eval.Node
import ClosureLang.Parser.Program

/-!
# Results that are alike

When the results of two sources tell a reader the same, although the tokens of the one stand in
other places than those of the other.
-/

namespace ClosureLang

/-- What a parser reads: the tokens of a source and then its end. -/
def stream (source : String) : List Token :=
  scan source ++ [endToken source]

/-- The help for a block that is opened at an offset and never closed. -/
def unclosedHelp (offset : Nat) : String :=
  "The block opened at offset " ++ toString offset ++ " is never closed."

/-- The errors blame the token in the same position, each in its own source, and say the same. Only
the offset of a block that is not closed may be another one. -/
structure SyntaxError.Alike (source source' : String) (error error' : SyntaxError) : Prop where
  message : error.message = error'.message
  blamed : ∃ i : Nat,
    (stream source)[i]? = some error.blamed ∧ (stream source')[i]? = some error'.blamed
  help : error.help = error'.help ∨
    ∃ m n, error.help = some (unclosedHelp m) ∧ error'.help = some (unclosedHelp n)

def Object.errorMessage? : Object → Option String
  | error _ message => some message
  | _ => none

structure Object.Alike (object object' : Object) : Prop where
  type : object.type = object'.type
  inspect : object.inspect = object'.inspect
  errorMessage? : object.errorMessage? = object'.errorMessage?

/-- There is a value in both or in none, every scope binds the same names, and so on for what they
are bound to. -/
structure Evaluation.Alike (result result' : Evaluation) : Prop where
  value : Option.Rel Object.Alike result.value result'.value
  bindings : ∀ scope name, Option.Rel Object.Alike (result.store.getLocal? scope name)
    (result'.store.getLocal? scope name)
  outer? : ∀ scope, result.store.outer? scope = result'.store.outer? scope

end ClosureLang
