import ClosureLang.Proofs.Reporting.Endings

/-!
# What a script reports

Of what a script comes to, one stream has it, and the exit code agrees.
-/

namespace ClosureLang.Script

variable {depth : Nat} {source : String} {filename : Option String} {outcome : Outcome}
  {console : Console}

/-- What is written says how the script has ended. -/
structure Reported (depth : Nat) (source : String) (filename : Option String) (outcome : Outcome)
    (console : Console) : Prop where
  one_stream : console.out = "" ∨ console.err = ""
  err_iff : console.err ≠ "" ↔ outcome.isFailure = true
  failure_iff : outcome.isFailure = true ↔
    (parse source).errors ≠ [] ∨ ∃ error, Raises depth source error
  out_iff : console.out ≠ "" ↔ ∃ value, Gives depth source value
  raised : ∀ error, Raises depth source error → console.err = "Error: " ++ error.message ++ "\n"
  value : ∀ value, Gives depth source value → console.out = value.inspect ++ "\n"
  /-- Nothing is evaluated, whatever the session, and every error is reported. -/
  rejected : (parse source).errors ≠ [] →
    (∀ depth' session,
      Session.run? depth' session source = some (.syntaxErrors (parse source).errors, session)) ∧
    console.err = String.join
      ((parse source).errors.map fun error => (Diagnostic.ofError error source filename).text)

theorem Ends.reported (h : Ends depth source filename outcome console) :
    Reported depth source filename outcome console := by
  cases h with
  | rejected herrors =>
      have hraises (error) : ¬ Raises depth source error := fun h => herrors h.1
      have hgives (value) : ¬ Gives depth source value := fun h => herrors h.1
      exact
        { one_stream := .inl rfl
          err_iff := by simp [Console.onErr, Outcome.isFailure, reportAll_ne_empty herrors]
          failure_iff := by simp [Outcome.isFailure, herrors]
          out_iff := by simp [Console.onErr, hgives]
          raised := fun error h => absurd h (hraises error)
          value := fun value h => absurd h (hgives value)
          rejected := fun _ => ⟨run?_of_errors herrors, rfl⟩ }
  | @raised error _ hraised =>
      have hgives (value) : ¬ Gives depth source value := hraised.not_gives value
      exact
        { one_stream := .inl rfl
          err_iff := by simp [Console.onErr, Outcome.isFailure, Object.isError]
          failure_iff := iff_of_true rfl (.inr ⟨error, hraised⟩)
          out_iff := by simp [Console.onErr, hgives]
          raised := fun error' h => by rw [hraised.unique h]; rfl
          value := fun value h => absurd h (hgives value)
          rejected := fun h => absurd hraised.1 h }
  | @value value hgiven herror =>
      have hraises (error) : ¬ Raises depth source error := fun h => h.not_gives value hgiven
      exact
        { one_stream := .inr rfl
          err_iff := by simp [Console.onOut, Outcome.isFailure, herror]
          failure_iff := by simp [Outcome.isFailure, herror, hgiven.1, hraises]
          out_iff := iff_of_true (by simp [Console.onOut]) ⟨value, hgiven⟩
          raised := fun error h => absurd h (hraises error)
          value := fun value' h => by rw [hgiven.unique h]; rfl
          rejected := fun h => absurd hgiven.1 h }
  | empty herrors hattempt =>
      have hraises (error) : ¬ Raises depth source error := by
        rintro ⟨-, s, hs⟩
        cases hattempt.symm.trans hs
      have hgives (value) : ¬ Gives depth source value := by
        rintro ⟨-, s, hs⟩
        cases hattempt.symm.trans hs
      exact
        { one_stream := .inl rfl
          err_iff := by simp [Console.empty, Outcome.isFailure]
          failure_iff := by simp [Outcome.isFailure, herrors, hraises]
          out_iff := by simp [Console.empty, hgives]
          raised := fun error h => absurd h (hraises error)
          value := fun value h => absurd h (hgives value)
          rejected := fun h => absurd herrors h }

/-- A script reports faithfully how it has ended. Run from a file, it exits with failure exactly if
there is something on standard error. -/
theorem script_reports_faithfully (h : run? depth source filename = some (outcome, console)) :
    Reported depth source filename outcome console ∧
      ∀ path files input content, filename = some path → files path = .bytes content →
        String.fromUTF8? content = some source →
        (CommandLine.Request.script path).run? depth files input =
          some ⟨console, if console.err = "" then 0 else 1⟩ := by
  have hreported := (ends_of_run? h).reported
  refine ⟨hreported, ?_⟩
  rintro path files input content rfl hfile hsource
  have hcode : (if outcome.isFailure then 1 else 0) = if console.err = "" then 0 else 1 := by
    have herr := hreported.err_iff
    split <;> simp_all
  simp only [CommandLine.Request.run?, CommandLine.runFile?, hfile, hsource, h, Option.map_some,
    hcode]

/-- A source that calls a function with too few arguments. -/
def miscallingSource : String :=
  "let add = fn(a, b) \x7b a + b \x7d; let c = add(1); c"

theorem miscalling_source_fails :
    ∃ outcome console, run? 1 miscallingSource (some "add.cl") = some (outcome, console) ∧
      console.err = "Error: wrong number of arguments: want=2, got=1\n" ∧
      Reported 1 miscallingSource (some "add.cl") outcome console ∧
      (CommandLine.Request.script "add.cl").run? 1 (fun _ => .bytes miscallingSource.toUTF8)
        ByteArray.empty = some ⟨console, 1⟩ := by
  have hsome : (run? 1 miscallingSource (some "add.cl")).any
      (·.2.err == "Error: wrong number of arguments: want=2, got=1\n") = true := by
    decide +kernel
  obtain ⟨⟨outcome, console⟩, hrun, herr⟩ := (Option.any_eq_true ..).mp hsome
  have herr : console.err = "Error: wrong number of arguments: want=2, got=1\n" := eq_of_beq herr
  obtain ⟨hreported, hexit⟩ := script_reports_faithfully hrun
  have htext : String.fromUTF8? miscallingSource.toUTF8 = some miscallingSource := by
    simp [String.fromUTF8?, String.isValidUTF8, String.fromUTF8]
  refine ⟨outcome, console, hrun, herr, hreported, ?_⟩
  rw [hexit "add.cl" _ ByteArray.empty _ rfl rfl htext, herr]
  rfl

end ClosureLang.Script
