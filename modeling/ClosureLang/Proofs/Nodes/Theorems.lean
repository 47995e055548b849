import ClosureLang.Proofs.Grammar.Theorems
import ClosureLang.Proofs.Nodes.Lemmas.Expressions
import ClosureLang.Proofs.Placing.Lemmas.Sources
import ClosureLang.Proofs.Scanning.Theorems

/-!
# Every node carries its own token
-/

namespace ClosureLang

open ClosureLang.Parser

theorem parse_carries (source : String) :
    FittingStatements (scan source) (parse source).program.statements ∧
      (parse source).program.nodeTokens.Sublist (scan source) := by
  have hstands : (State.ofString source).Stands source _ :=
    ⟨State.below_ofString source, List.suffix_rfl⟩
  have hout := carries_program hstands
  simp only [parse]
  generalize program _ (State.ofString source) = r at hout ⊢
  cases hout with
  | dropped _ _ => exact ⟨trivial, List.nil_sublist _⟩
  | ok _ h =>
      obtain ⟨hfits, read, hsub, htokens⟩ := h
      have htokens : scan source = read ++ _ := htokens
      exact ⟨hfits, htokens ▸ hsub.trans (List.sublist_append_left _ _)⟩

/-- With or without syntax errors, the tokens that the nodes of a program carry are tokens of the
source, in its order, one behind another, so that none of them belongs to two nodes. And every one
of them fits its node. -/
theorem nodes_carry_their_tokens (source : String) :
    (parse source).program.nodeTokens.Sublist (scan source) ∧
      (parse source).program.nodeTokens.Nodup ∧
      (parse source).program.nodeTokens.Pairwise (fun t u => t.span.start < t.span.stop ∧
        t.span.stop ≤ u.span.start ∧ u.span.start < u.span.stop) ∧
      FittingStatements (scan source) (parse source).program.statements := by
  obtain ⟨hfits, hsub⟩ := parse_carries source
  have htiling : Tiling 0 source.toList (scan source) := (Scanner.ofString source).tiling
  have hpairwise : (scan source).Pairwise fun t u => t.span.start < t.span.stop ∧
      t.span.stop ≤ u.span.start ∧ u.span.start < u.span.stop := by
    refine htiling.pairwise.imp_of_mem fun ht hu hle => ?_
    exact ⟨(htiling.bounds _ ht).2, hle, (htiling.bounds _ hu).2⟩
  exact ⟨hsub, (nodup_scan source).sublist hsub, hpairwise.sublist hsub, hfits⟩

end ClosureLang
