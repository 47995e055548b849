import ClosureLang.Proofs.Sessions.Lemmas.Answers

/-!
# Sources behind others

What stands behind a source that ends with a semicolon is parsed as if nothing were in front of it,
and so a script is the session of its pieces.
-/

namespace ClosureLang

/-! ## Parsing goes on at a semicolon -/

/-- An error further on says the same. Of a block that is not closed it tells where that is now. -/
theorem SyntaxError.help_shifted (error : SyntaxError) (bytes : Nat) :
    (error.placed (shifted bytes)).help = match error.cause with
      | .unclosed opening =>
        some ("The block opened at offset " ++ toString (opening.span.start + bytes) ++
          " is never closed.")
      | _ => error.help := by
  obtain ⟨blamed, cause⟩ := error
  cases cause <;> rfl

/-- Behind a source that has no syntax errors and ends with a semicolon, or has no tokens, any
source adds its statements and its errors, further on by the length of what is in front. The errors
say the same, but for the place of a block that is not closed. -/
theorem parsing_goes_on_at_semicolon {a : String} (ha : Closed a) (b : String) :
    (parse (a ++ b)).program.statements = (parse a).program.statements ++
        (parse b).program.statements.map (Stmt.placed (shifted a.utf8ByteSize)) ∧
      (parse (a ++ b)).errors =
        (parse b).errors.map (SyntaxError.placed (shifted a.utf8ByteSize)) ∧
      ∀ error ∈ (parse b).errors,
        let behind := error.placed (shifted a.utf8ByteSize)
        behind.span = ⟨error.span.start + a.utf8ByteSize, error.span.stop + a.utf8ByteSize⟩ ∧
          behind.message = error.message ∧
          behind.help = match error.cause with
            | .unclosed opening =>
              some ("The block opened at offset " ++
                toString (opening.span.start + a.utf8ByteSize) ++ " is never closed.")
            | _ => error.help := by
  obtain ⟨hstmts, herrors⟩ := parse_behind ha b
  exact ⟨hstmts, herrors, fun error _ => ⟨rfl, error.message_placed, error.help_shifted _⟩⟩

/-- Two statements on a line, which ends behind the semicolon. -/
def closedSource : String :=
  "let x = 1; f(x);\n"

/-- A statement that misses a sign, one that misses nothing, and one with an unclosed block. -/
def unclosedSource : String :=
  "let y 2; x; if (x) \x7b y"

theorem unclosed_source_behind :
    Closed closedSource ∧ (parse unclosedSource).errors.length = 2 ∧
      (parse (closedSource ++ unclosedSource)).program.statements =
        (parse closedSource).program.statements ++
          (parse unclosedSource).program.statements.map (Stmt.placed (shifted 17)) ∧
      (parse (closedSource ++ unclosedSource)).errors =
        (parse unclosedSource).errors.map (SyntaxError.placed (shifted 17)) ∧
      (parse (closedSource ++ unclosedSource)).program.statements.map Stmt.render =
        ["let x = 1;", "f(x)", "2", "x"] ∧
      (parse (closedSource ++ unclosedSource)).errors.map SyntaxError.span =
        [⟨23, 24⟩, ⟨39, 40⟩] ∧
      ((parse unclosedSource).errors.map SyntaxError.help).getLast? =
        some (some "The block opened at offset 19 is never closed.") ∧
      ((parse (closedSource ++ unclosedSource)).errors.map SyntaxError.help).getLast? =
        some (some "The block opened at offset 36 is never closed.") := by
  have hclosed : Closed closedSource := ⟨by decide +kernel, by decide +kernel⟩
  obtain ⟨hstmts, herrors, -⟩ := parsing_goes_on_at_semicolon hclosed unclosedSource
  exact ⟨hclosed, by decide +kernel, hstmts, herrors, by decide +kernel⟩

/-! ## A script is the session of its pieces -/

/-- Sources that end with a semicolon run alike one after another and joined to one script. If all
their statements go through, the script has the value of the last source with a statement, and
leaves what the last source leaves. Otherwise it ends as the first source does in which a statement
fails or yields something returned. Only the places of tokens are others. -/
theorem script_is_session {session : Session} {sources : List String} {depth depth' : Nat}
    {turns : List Turn} {outcome : Outcome} {final : Session}
    (hclosed : ∀ source ∈ sources, Closed source)
    (hturns : session.turns? depth sources = some turns)
    (hscript : session.run? depth' (String.join sources) = some (outcome, final)) :
    ((∀ turn ∈ turns, turn.completes depth = true) →
      outcome.unplaced = (Turn.lastOutcome turns).unplaced ∧
        final.unplaced = (session.afterTurns turns).unplaced) ∧
    ∀ done turn left, turns = done ++ turn :: left →
      (∀ turn ∈ done, turn.completes depth = true) → turn.completes depth = false →
        outcome.unplaced = turn.outcome.unplaced ∧ final.unplaced = turn.after.unplaced := by
  obtain ⟨herrors, hstmts⟩ := parse_join hclosed
  obtain ⟨value, hvalue, hanswers⟩ :=
    Session.answers_of_run? herrors (Session.run?_mono (Nat.le_max_right depth depth') hscript)
  rw [hstmts] at hanswers
  have hmore := Session.turns?_mono (Nat.le_max_left depth depth') hturns
  have hsame : ∀ turn ∈ turns, turn.completes (max depth depth') = turn.completes depth := by
    intro turn hturn
    obtain ⟨hrun, hsource⟩ := Session.runs_of_mem hturns hclosed turn hturn
    exact hrun.completes_mono hsource (Nat.le_max_left depth depth')
  constructor
  · intro hall
    have hall' := fun turn hturn => (hsame turn hturn).trans (hall turn hturn)
    obtain ⟨answer, hanswer, hanswers'⟩ :=
      Session.answers_of_completes hmore hclosed Run.goesOn_none hall'
    obtain ⟨rfl, hfinal⟩ := hanswers.unique hanswers'
    exact ⟨hvalue.trans (hanswer.symm.trans (Session.unplaced_lastOutcome turns).symm), hfinal⟩
  · rintro done turn left rfl hall hnot
    have hall' : ∀ turn ∈ done, turn.completes (max depth depth') = true := fun turn hturn =>
      (hsame turn (List.mem_append_left _ hturn)).trans (hall turn hturn)
    have hnot' : turn.completes (max depth depth') = false :=
      (hsame turn (List.mem_append_right _ List.mem_cons_self)).trans hnot
    obtain ⟨answer, hanswer, hanswers'⟩ :=
      Session.answers_of_not_completes hmore hclosed Run.goesOn_none hall' hnot'
    obtain ⟨rfl, hfinal⟩ := hanswers.unique hanswers'
    exact ⟨hvalue.trans hanswer.symm, hfinal⟩

/-- Sources of which the second returns before its last statement. -/
def returningPieces : List String :=
  ["let next = fn(n) \x7b n + 1; \x7d;", "let two = next(1); return two; next(two);", " two ;"]

/-- The text in which the value of a source is shown. -/
def Outcome.shown? : Outcome → Option String
  | .value answer => answer.map Object.inspect
  | .syntaxErrors _ => none

theorem returning_script_ends_in_second :
    ∃ first second third outcome final,
      Session.new.turns? 1 returningPieces = some [first, second, third] ∧
      Session.new.run? 1 (String.join returningPieces) = some (outcome, final) ∧
      first.completes 1 = true ∧ second.completes 1 = false ∧ outcome.shown? = some "2" ∧
      outcome.unplaced = second.outcome.unplaced ∧ final.unplaced = second.after.unplaced := by
  have hclosed : ∀ source ∈ returningPieces, Closed source := by
    have hall : ∀ source ∈ returningPieces,
        (parse source).errors = [] ∧ ∀ token ∈ (scan source).getLast?, token.kind = .semicolon := by
      decide +kernel
    exact fun source hsource => ⟨(hall source hsource).1, (hall source hsource).2⟩
  have hcompletes : (Session.new.turns? 1 returningPieces).map (·.map (·.completes 1)) =
      some [true, false, true] := by decide +kernel
  obtain ⟨turns, hturns, hmap⟩ := Option.map_eq_some_iff.mp hcompletes
  obtain ⟨first, rest, rfl, hfirst, hmap⟩ := List.map_eq_cons_iff.mp hmap
  obtain ⟨second, rest, rfl, hsecond, hmap⟩ := List.map_eq_cons_iff.mp hmap
  obtain ⟨third, rfl, _⟩ := List.map_eq_singleton_iff.mp hmap
  have hrun : (Session.new.run? 1 (String.join returningPieces)).any (fun run =>
      run.1.shown? == some "2") = true := by decide +kernel
  obtain ⟨⟨outcome, final⟩, hscript, hshown⟩ := (Option.any_eq_true ..).mp hrun
  obtain ⟨houtcome, hfinal⟩ := (script_is_session hclosed hturns hscript).2 [first] second [third]
    rfl (by simpa using hfirst) hsecond
  exact ⟨first, second, third, outcome, final, hturns, hscript, hfirst, hsecond, eq_of_beq hshown,
    houtcome, hfinal⟩

end ClosureLang
