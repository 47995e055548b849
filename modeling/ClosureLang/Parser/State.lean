import ClosureLang.Syntax.Error
import ClosureLang.Syntax.Operator

/-!
# Parsers

What parsers work on, and the steps from which the rules of the grammar are put together.

A parser stands at a current token and looks one token ahead. It keeps the errors it has recorded
and a trace of the rules it has entered and left, whether they succeed or fail.
-/

namespace ClosureLang

/-- The rules that the trace shows. Reading an expression shows the precedence above which it goes
on and the token it begins with. -/
inductive Activity
  | program
  | letStatement
  | returnStatement
  | expressionStatement
  | expression (limit : Precedence) (first : Token)
  | prefixed
  | infixed
  | conditional
  | block
  | function
  | call
deriving DecidableEq

inductive TraceEvent
  | enter (activity : Activity)
  | leave (activity : Activity)
deriving DecidableEq

namespace Parser

/-- `tokens` are the tokens from the current one on, without the end; `finish` is the end, which
stands after the last of them however often it is read. Errors and trace have the newest first. -/
structure State where
  tokens : List Token
  finish : Token
  errors : List SyntaxError
  trace : List TraceEvent

namespace State

def current (s : State) : Token :=
  s.tokens.headD s.finish

/-- The token after the current one. -/
def upcoming (s : State) : Token :=
  s.tokens.tail.headD s.finish

def advance (s : State) : State :=
  { s with tokens := s.tokens.tail }

def record (s : State) (error : SyntaxError) : State :=
  { s with errors := error :: s.errors }

def note (s : State) (event : TraceEvent) : State :=
  { s with trace := event :: s.trace }

end State

/-- Why a parser gives no result: the construct is dropped after an error has been recorded, or the
bound on the depth of rules or on the rounds of a loop is used up. -/
inductive Failure
  | dropped
  | exhausted
deriving DecidableEq

end Parser

abbrev Parser := EStateM Parser.Failure Parser.State

namespace Parser

variable {α β : Type}

def current : Parser Token :=
  return (← get).current

def upcoming : Parser Token :=
  return (← get).upcoming

def advance : Parser Unit :=
  modify State.advance

/-- Records an error and drops the construct in hand. -/
def reject (error : SyntaxError) : Parser α := do
  modify (State.record · error)
  throw .dropped

/-- Moves on to the next token if it has the kind that is wanted. -/
def expect (wanted : Kind) (hint : Option Hint) : Parser Token := do
  let token ← upcoming
  if token.kind = wanted then
    advance
    return token
  else
    reject ⟨token, .expected wanted hint⟩

/-- Runs a parser inside a rule of the trace, which is left on every way out. -/
def within (activity : Activity) (p : Parser α) : Parser α := fun s =>
  match p (s.note (.enter activity)) with
  | .ok a s' => .ok a (s'.note (.leave activity))
  | .error failure s' => .error failure (s'.note (.leave activity))

/-- Gives no result where the parser drops its construct; what it has read and recorded stays. -/
def attempt (p : Parser α) : Parser (Option α) := fun s =>
  match p s with
  | .ok a s' => .ok (some a) s'
  | .error .dropped s' => .ok none s'
  | .error .exhausted s' => .error .exhausted s'

/-- Rounds on `acc` as long as `pick` finds something to do, and at most one for each item of the
list. -/
def rounds (pick : State → Option β) (round : β → α → Parser α) : List Token → α → Parser α
  | [], acc => do
    match pick (← get) with
    | none => return acc
    | some _ => throw .exhausted
  | _ :: left, acc => do
    match pick (← get) with
    | none => return acc
    | some b => rounds pick round left (← round b acc)

/-- Rounds on `acc` as long as `pick` finds something to do. A round uses up a token or fails, so
that there are no more rounds than tokens. -/
def loop (pick : State → Option β) (round : β → α → Parser α) (acc : α) : Parser α := do
  rounds pick round (← get).tokens acc

end Parser

end ClosureLang
