import ClosureLang.Parser.Program
import ClosureLang.Proofs.Grammar.Lemmas.Completeness
import ClosureLang.Proofs.Grammar.Lemmas.Soundness

/-!
# Parsing is deciding the grammar
-/

namespace ClosureLang

open ClosureLang.Grammar ClosureLang.Parser

theorem Scanner.kind_ne_eof (s : Scanner) : ∀ t ∈ s.tokens, t.kind ≠ .eof := by
  rw [Scanner.tokens]
  split
  · simp
  · next h =>
    intro t ht
    rcases List.mem_cons.mp ht with rfl | ht
    · exact h
    · exact Scanner.kind_ne_eof _ t ht
termination_by s.rest.length
decreasing_by exact Scanner.length_next_lt ‹_›

/-- The depth that a source text is parsed with is never reached. -/
theorem Parser.State.below_ofString (source : String) :
    (State.ofString source).Below ((State.ofString source).tokens.length + 1) :=
  ⟨⟨rfl, Scanner.kind_ne_eof _⟩, Nat.lt_succ_self _⟩

/-- Parsing a source text comes to a program and errors. The program is derived unless there are
any. -/
theorem derives_of_errors_eq_nil {source : String} (h : (parse source).errors = []) :
    Derives (scan source) (parse source).program := by
  have hout := outcome_program (State.below_ofString source)
  simp only [parse] at h ⊢
  generalize program _ (State.ofString source) = r at h hout ⊢
  cases hout with
  | ok _ hq => exact hq.2 (List.reverse_eq_nil_iff.mp h)
  | dropped _ he => exact absurd (List.reverse_eq_nil_iff.mp h) he

theorem parse_eq_of_derives {source : String} {whole : Program} (h : Derives (scan source) whole) :
    (parse source).errors = [] ∧ (parse source).program = whole := by
  obtain ⟨s', hs', he⟩ := program_eq (s := State.ofString source) rfl h (Nat.le_succ _)
  simp only [parse, hs', he]
  exact ⟨rfl, trivial⟩

/-- A source text is parsed without errors exactly if the grammar derives its tokens, and then the
program is the tree of the derivation. -/
theorem parse_decides_grammar (source : String) :
    ((parse source).errors = [] ↔ ∃ program, Derives (scan source) program) ∧
      ∀ program, Derives (scan source) program ↔
        (parse source).errors = [] ∧ (parse source).program = program := by
  refine ⟨⟨fun h => ⟨_, derives_of_errors_eq_nil h⟩, ?_⟩, fun program => ⟨parse_eq_of_derives, ?_⟩⟩
  · rintro ⟨program, h⟩
    exact (parse_eq_of_derives h).1
  · rintro ⟨h, rfl⟩
    exact derives_of_errors_eq_nil h

end ClosureLang
