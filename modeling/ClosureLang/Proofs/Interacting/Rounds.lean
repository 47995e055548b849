import ClosureLang.Repl

/-!
# The rounds of an interactive session

Each input that the loop comes to, with what it is answered; the inputs that the loop rejects, and
those that close it.
-/

namespace ClosureLang.Repl

/-- What a line says, without the white space around it. -/
def command (line : String) : String :=
  String.ofList (trim line.toList)

/-- Whether the input is a line that is blank or has syntax errors. -/
def Input.isRejected : Input → Bool
  | .line text => (command text).isEmpty || ! (parse (command text)).errors.isEmpty
  | _ => false

/-- Whether the loop ends at the input: a line that says `exit` in any case, the end of the stream,
or what is not text. -/
def Input.closes : Input → Bool
  | .line text => (command text).map Char.toLower = "exit"
  | .undecodable | .finished => true

/-- The reports of the syntax errors of an input. -/
def Input.reports : Input → String
  | .line text => reportAll (parse (command text)).errors (command text) none
  | _ => ""

/-- An input that the loop comes to, the session at that time, and the answer. -/
structure Round where
  input : Input
  before : Session
  turn : Turn

/-- What is written in a round, from the prompt on. -/
def Round.console (round : Round) : Console :=
  ⟨prompt ++ round.turn.console.out, round.turn.console.err⟩

/-- The rounds of the loop on a list of inputs, up to one that closes it. There are none if one of
them has no result. -/
def rounds? (depth : Nat) (session : Session) : List Input → Option (List Round)
  | [] => some []
  | input :: inputs =>
    (turn? depth session input).bind fun turn =>
      match turn.session with
      | some after => (rounds? depth after inputs).map (⟨input, session, turn⟩ :: ·)
      | none => some [⟨input, session, turn⟩]

/-- All that is written in some rounds. -/
def transcript (rounds : List Round) : Console where
  out := String.join (rounds.map (·.console.out))
  err := String.join (rounds.map (·.console.err))

/-- The rounds at these places, which are counted from zero, are there, and have rejected inputs. -/
def RejectedAt (gone : Nat → Bool) (rounds : List Round) : Prop :=
  ∀ i, gone i = true → ∃ round, rounds[i]? = some round ∧ round.input.isRejected = true

/-- A list without the entries at some places. -/
def without {α : Type} (gone : Nat → Bool) : List α → List α
  | [] => []
  | x :: xs =>
    let rest := without (fun i => gone (i + 1)) xs
    if gone 0 then rest else x :: rest

/-- A stream of bytes without some of its lines. -/
def withoutLines (gone : Nat → Bool) (bytes : ByteArray) : ByteArray :=
  ⟨(without gone (splitLines bytes.toList)).flatten.toArray⟩

end ClosureLang.Repl
