import ClosureLang.Proofs.Advancing.Theorems
import ClosureLang.Proofs.Dropping.Lemmas.Following
import ClosureLang.Proofs.Sessions.Lemmas.Joining

/-!
# Nothing is dropped without a word
-/

namespace ClosureLang.Parser

theorem Outcome.accounts {α : Type} {s : State} {Q : α → State → Prop}
    {r : EStateM.Result Failure State α} (h : Outcome s Q r) : Accounts s r := by
  cases h with
  | ok hl _ => exact .ok hl.errors
  | @dropped s' hl he =>
      obtain ⟨errors, herrors⟩ := hl.errors
      refine .dropped (fun hnil => he ?_) herrors.symm
      rw [← herrors, hnil, List.nil_append]

theorem errors_program (source : String) {depth : Nat} (hdepth : (scan source).length < depth) :
    (stateOf (program depth (.ofString source))).errors = (parse source).errors.reverse := by
  have hbelow : (State.ofString source).Below ((scan source).length + 1) :=
    State.below_ofString source
  obtain ⟨whole, s, hrun, -, -⟩ := exists_program hbelow
  rw [← program_eq_of_le hdepth hbelow, hrun, parse_eq hrun, List.reverse_reverse]
  rfl

/-- From every state, with any tokens ahead and any errors so far, a rule only adds to the errors,
and it adds at least one if it has no result. It comes to the same with any detours, as long as
dropped statements are passed over: the places where a construct would be left without a word are
never reached. And if no error is recorded, nothing has been dropped: it comes to the same whatever
would be done behind a dropped statement, and so does the parser on a whole source. -/
theorem nothing_is_dropped_silently (detours : Detours) :
    (∀ depth (s : State), s.finish.kind = .eof → s.tokens.length < depth →
      ∀ α (p p' : Parser α), RuleAt detours depth s α p p' →
        Accounts s (p s) ∧
          (detours.PassesOver ∨ (stateOf (p s)).errors = s.errors → p' s = p s)) ∧
    ∀ source depth, (scan source).length < depth →
      detours.PassesOver ∨ (parse source).errors = [] →
        detours.program depth (.ofString source) = program depth (.ofString source) := by
  refine ⟨fun depth s hfinish hlength α p p' hrule => ?_, fun source depth hdepth hc => ?_⟩
  · have hfollows := hrule.follows ⟨hfinish, hlength⟩
    exact ⟨hfollows.outcome.accounts, hfollows.same⟩
  · refine (follows_program detours depth (.ofString source) ⟨rfl, hdepth⟩).same ?_
    rw [errors_program source hdepth]
    exact hc.imp_right fun hnil => by rw [hnil]; rfl

/-- Detours on which parsing comes to an end at once. -/
def Detours.givingUp : Detours :=
  ⟨throw .exhausted, throw .exhausted, fun _ => throw .exhausted, fun _ => throw .exhausted⟩

/-- A statement that is dropped with an error, and a source in which none is. -/
theorem misplaced_parenthesis_is_reported :
    let s := State.ofString "let )"
    let source := "if (-a) \x7b b; \x7d else \x7b f(1, fn(x) \x7b return x + 2; \x7d) \x7d"
    Accounts s (statement (expression 3) s) ∧
      (stateOf (statement (expression 3) s)).errors ≠ s.errors ∧
      (parse source).errors = [] ∧
      Detours.givingUp.program 40 (.ofString source) = program 40 (.ofString source) := by
  intro s source
  obtain ⟨hrules, hsources⟩ := nothing_is_dropped_silently .givingUp
  have hnone : (parse source).errors = [] := by decide +kernel
  refine ⟨?_, by decide +kernel, hnone, hsources source 40 (by decide +kernel) (.inr hnone)⟩
  exact (hrules 3 s rfl (by decide +kernel) _ _ _ .statement).1

end ClosureLang.Parser
