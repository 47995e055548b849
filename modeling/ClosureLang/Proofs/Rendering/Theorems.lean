import ClosureLang.Proofs.Rendering.Lemmas.Counting
import ClosureLang.Proofs.Rendering.Lemmas.Rereading

/-!
# Texts that are read back
-/

namespace ClosureLang

open Grammar

/-- A text is parsed without errors, and to a program with just this text. -/
def ReadsBack (text : String) : Prop :=
  (parse text).errors = [] ∧ (parse text).program.render = text

theorem readsBack_of_separated {source : String} (h : (parse source).errors = [])
    (hj : (parse source).program.separated = true) :
    ReadsBack (parse source).program.render := by
  have hs := (derives_of_errors_eq_nil h).spelled
  obtain ⟨again, hagain, hbare⟩ := reread_statements _ hs hj rfl
  have hderives : Derives (scan (parse source).program.render) ⟨again⟩ := hagain
  obtain ⟨herrors, hprogram⟩ := parse_eq_of_derives hderives
  refine ⟨herrors, ?_⟩
  rw [hprogram]
  exact Program.render_eq_of_bare_eq (congrArg Program.mk hbare)

/-- The tokens of a text that is read back count as much as its program, and the text of a program
counts as much only if nothing in it runs into what is behind it. -/
theorem separated_of_readsBack {text : String} (h : ReadsBack text) :
    (parse text).program.separated = true := by
  have hderives := derives_of_errors_eq_nil h.1
  have hread :
      score false (kindsOf (scan text)) = scoreStatements (parse text).program.statements :=
    score_statements hderives
  have hwritten := score_renderStatements _ hderives.spelled
  apply hwritten.2
  have htext : renderStatements (parse text).program.statements = text := h.2
  rw [htext, kindsIn_eq, hread]

/-- Where no statement runs into the one behind it, the text of the program of a source is read
back. A text is read back only if it is the text of such a program. -/
theorem text_reads_back_iff_separated (source : String) (h : (parse source).errors = []) :
    ((parse source).program.separated = true → ReadsBack (parse source).program.render) ∧
      (ReadsBack (parse source).program.render ↔
        ∃ other, (parse other).errors = [] ∧ (parse other).program.separated = true ∧
          (parse other).program.render = (parse source).program.render) := by
  refine ⟨readsBack_of_separated h, ?_, ?_⟩
  · intro hback
    exact ⟨_, hback.1, separated_of_readsBack hback, hback.2⟩
  · rintro ⟨other, hother, hj, htext⟩
    rw [← htext]
    exact readsBack_of_separated hother hj

theorem conditional_then_call_reads_back :
    (parse "let a = 1; return -a; if (a) \x7b b \x7d d(2)").errors = [] ∧
      ReadsBack (parse "let a = 1; return -a; if (a) \x7b b \x7d d(2)").program.render :=
  ⟨by decide +kernel,
    (text_reads_back_iff_separated "let a = 1; return -a; if (a) \x7b b \x7d d(2)"
      (by decide +kernel)).1 (by decide +kernel)⟩

/-- A statement in parentheses behind another expression becomes its argument. -/
theorem text_not_always_read_back :
    ¬ ∀ source, (parse source).errors = [] → ReadsBack (parse source).program.render := by
  intro h
  have hback := h "3 + 4; -5 * 5" (by decide +kernel)
  exact absurd hback.2 (by decide +kernel)

end ClosureLang
