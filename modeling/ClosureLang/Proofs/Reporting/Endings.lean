import ClosureLang.CommandLine
import ClosureLang.Proofs.Failing.Theorems

/-!
# How scripts end

The ways in which a script ends, and what each of them says.
-/

namespace ClosureLang

/-! ## What is written -/

theorem Diagnostic.text_ne_empty (diagnostic : Diagnostic) : diagnostic.text ≠ "" := by
  simp [text, rows, String.join_cons]

theorem reportAll_ne_empty {errors : List SyntaxError} (h : errors ≠ []) (source : String)
    (filename : Option String) : reportAll errors source filename ≠ "" := by
  cases errors with
  | nil => exact absurd rfl h
  | cons error errors =>
      simp [reportAll, Diagnostic.text_ne_empty]

namespace Script

/-- The evaluation of a source in a session of its own, before an error is answered. -/
def attempt (depth : Nat) (source : String) : EStateM.Result Run.Stop Run.State (Option Object) :=
  (Node.program (parse source).program).attempt depth Session.new.scope ⟨Session.new.store, []⟩

/-- The source is evaluated until an error is raised. -/
def Raises (depth : Nat) (source : String) (error : EvalError) : Prop :=
  (parse source).errors = [] ∧ ∃ s, attempt depth source = .error (.raised error) s

/-- The source is evaluated to the end, and there is a value. -/
def Gives (depth : Nat) (source : String) (value : Object) : Prop :=
  (parse source).errors = [] ∧ ∃ s, attempt depth source = .ok (some value) s

variable {depth : Nat} {source : String} {filename : Option String} {outcome : Outcome}
  {console : Console}

/-- No value is an error, since none can be come to where nothing is bound. -/
theorem Gives.not_error {value : Object} (h : Gives depth source value) :
    value.isError = false := by
  obtain ⟨-, s, hs⟩ := h
  have hlawful := Store.lawful_sound (Session.not_showsError_new Session.new.scope) depth
  have hattempt := (Node.program (parse source).program).preserves_attempt hlawful
    ⟨Session.new.store, []⟩ ⟨Session.new.store.within_sound, by simp⟩
  rw [attempt] at hs
  rw [hs] at hattempt
  cases hattempt with
  | ok hq => exact (hq.2 value rfl).not_error

theorem Raises.unique {error error' : EvalError} (h : Raises depth source error)
    (h' : Raises depth source error') : error' = error := by
  obtain ⟨-, s, hs⟩ := h
  obtain ⟨-, t, ht⟩ := h'
  cases hs.symm.trans ht
  rfl

theorem Raises.not_gives {error : EvalError} (h : Raises depth source error) (value : Object) :
    ¬ Gives depth source value := by
  obtain ⟨-, s, hs⟩ := h
  rintro ⟨-, t, ht⟩
  cases hs.symm.trans ht

theorem Gives.unique {value value' : Object} (h : Gives depth source value)
    (h' : Gives depth source value') : value' = value := by
  obtain ⟨-, s, hs⟩ := h
  obtain ⟨-, t, ht⟩ := h'
  cases hs.symm.trans ht
  rfl

/-- The ways in which a script ends, with the outcome and what is written. -/
inductive Ends (depth : Nat) (source : String) (filename : Option String) :
    Outcome → Console → Prop
  | rejected :
      (parse source).errors ≠ [] →
      Ends depth source filename (.syntaxErrors (parse source).errors)
        (.onErr (reportAll (parse source).errors source filename))
  | raised {error id} :
      Raises depth source error →
      Ends depth source filename (.value (some (.error id error.message)))
        (.onErr ("Error: " ++ error.message ++ "\n"))
  | value {value} :
      Gives depth source value → value.isError = false →
      Ends depth source filename (.value (some value)) (.onOut (value.inspect ++ "\n"))
  | empty {s} :
      (parse source).errors = [] → attempt depth source = .ok none s →
      Ends depth source filename (.value none) .empty

theorem run?_of_errors (h : (parse source).errors ≠ []) (depth : Nat) (session : Session) :
    session.run? depth source = some (.syntaxErrors (parse source).errors, session) := by
  rw [Session.run?, if_neg (by simpa using h)]

theorem ends_of_run? (h : run? depth source filename = some (outcome, console)) :
    Ends depth source filename outcome console := by
  by_cases herrors : (parse source).errors = []
  · rw [run?, Session.run?, if_pos (by simp [herrors]), Node.evaluate?, Node.run_eq_settle,
      Run.settle_eq] at h
    cases hattempt : attempt depth source with
    | ok value s =>
        rw [attempt] at hattempt
        rw [hattempt] at h
        obtain ⟨rfl, rfl⟩ := Prod.mk.inj (Option.some.inj h)
        cases value with
        | none => exact .empty herrors hattempt
        | some value =>
            have hgives : Gives depth source value := ⟨herrors, s, hattempt⟩
            simp only [console, hgives.not_error]
            exact .value hgives hgives.not_error
    | error stop s =>
        rw [attempt] at hattempt
        rw [hattempt] at h
        cases stop with
        | raised error =>
            obtain ⟨rfl, rfl⟩ := Prod.mk.inj (Option.some.inj h)
            exact .raised ⟨herrors, s, hattempt⟩
        | tooDeep => cases h
  · rw [run?, run?_of_errors herrors] at h
    obtain ⟨rfl, rfl⟩ := Prod.mk.inj (Option.some.inj h)
    exact .rejected herrors

end Script

end ClosureLang
