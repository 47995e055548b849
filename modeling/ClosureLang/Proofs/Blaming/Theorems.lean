import ClosureLang.Proofs.Advancing.Theorems
import ClosureLang.Proofs.Blaming.Lemmas.Ordering
import ClosureLang.Proofs.Blaming.Lemmas.Rules
import ClosureLang.Proofs.Provenance.Lemmas.Rules
import ClosureLang.Proofs.Scanning.Theorems
import ClosureLang.Proofs.Sessions.Lemmas.Joining

/-!
# Syntax errors are ordered and bounded

The errors of a source come in the order of the tokens that they blame. None is blamed more often
than there is room for it.
-/

namespace ClosureLang

theorem ascending_stream (source : String) : Ascending (scan source ++ [endToken source]) := by
  have htiling : Tiling 0 source.toList (scan source) := (Scanner.ofString source).tiling
  refine List.pairwise_append.mpr ⟨?_, List.pairwise_singleton _ _, fun t ht u hu => ?_⟩
  · refine htiling.pairwise.imp_of_mem fun ht _ hle => ?_
    exact Nat.lt_of_lt_of_le (htiling.bounds _ ht).2 hle
  · obtain ⟨front, rest, hsource, -, hstop⟩ := Span.covers_of_mem ht
    have hlength : byteLength source.toList = (endToken source).span.start := by
      rw [byteLength_eq_utf8ByteSize, String.ofList_toList]
      rfl
    rw [hsource, byteLength_append, ← hstop] at hlength
    rw [List.mem_singleton.mp hu, ← hlength]
    exact Nat.lt_of_lt_of_le (htiling.bounds t ht).2 (Nat.le_add_right _ _)

theorem parse_fills (source : String) :
    Fills (parse source).errors (ahead (endToken source) (scan source)) := by
  have hbelow : (Parser.State.ofString source).Below ((scan source).length + 1) :=
    Parser.State.below_ofString source
  obtain ⟨whole, s, hrun, -, -⟩ := Parser.exists_program hbelow
  have hspends := Parser.blames_program ((scan source).length + 1) _ hbelow.toEnds
  rw [hrun] at hspends
  obtain ⟨-, errors, herrors, hfills⟩ := hspends.of_ok
  have hrecorded : s.errors = errors.reverse ++ [] := herrors
  have hfilled := hfills [] (.nil _)
  rw [List.append_nil] at hrecorded hfilled
  rw [parse_eq hrun, hrecorded, List.reverse_reverse]
  exact hfilled.mono (Room.between_sublist_ahead _ _)

/-- Another token is expected in the place of the one that is blamed. -/
def SyntaxError.Misses (error : SyntaxError) : Prop :=
  ∃ wanted : Kind, error.message = "expected next token to be " ++ wanted.label ++ ", got " ++
    error.blamed.kind.label ++ " instead"

/-- The token that is blamed does not begin an expression, or is too large a number. -/
def SyntaxError.Refuses (error : SyntaxError) : Prop :=
  error.message = "no prefix parse function for " ++ error.blamed.kind.label ++ " found" ∨
    error.message = "could not parse " ++ error.blamed.literal ++ " as integer"

theorem SyntaxError.Takes.misses {error : SyntaxError} {token : Token}
    (h : error.Takes ⟨token, .upcoming⟩) : error.Misses := by
  obtain ⟨wanted, hint, hcause⟩ := h.cause
  exact ⟨wanted, by rw [SyntaxError.message, hcause]⟩

theorem SyntaxError.Takes.refuses {error : SyntaxError} {token : Token}
    (h : error.Takes ⟨token, .current⟩) : error.Refuses := by
  rcases h.cause with hcause | hcause
  · exact .inl (by rw [SyntaxError.message, hcause])
  · exact .inr (by rw [SyntaxError.message, hcause])

/-- Whatever the source is, every syntax error blames a token of it or its end, and they are
recorded in the order of what they blame. No token is blamed more than twice, and if it is, then at
first because another one is expected in its place, and then on its own account. The end is blamed
at most once more than there are opening braces. -/
theorem errors_are_ordered_and_bounded (source : String) :
    (∀ error ∈ (parse source).errors, ∃ token,
      (token ∈ scan source ∨ token = endToken source) ∧ error.span = token.span) ∧
    (parse source).errors.Pairwise (fun e f => e.span.start ≤ f.span.start) ∧
    (∀ token ∈ scan source, (errorsAt token.span (parse source).errors).length ≤ 2 ∧
      ∀ first second, errorsAt token.span (parse source).errors = [first, second] →
        first.Misses ∧ second.Refuses) ∧
    (errorsAt (endToken source).span (parse source).errors).length ≤
      1 + (scan source).countP fun token => token.kind = .leftBrace := by
  have hascending := ascending_stream source
  have hfills := parse_fills source
  refine ⟨fun error hmem => ?_, ?_, fun token ht => ?_, ?_⟩
  · exact ⟨error.blamed, (parse_within_source source).2 error hmem, rfl⟩
  · have htokens : ((ahead (endToken source) (scan source)).map Slot.token).Pairwise fun t u =>
        t.span.start ≤ u.span.start := List.pairwise_map.mpr (ahead_pairwise hascending)
    have hordered := List.pairwise_map.mp (htokens.sublist hfills.map_blamed)
    exact hordered
  · have hroom := hfills.at token.span
    rw [slotsAt_ahead hascending ht] at hroom
    refine ⟨hroom.length_le, fun first second herrors => ?_⟩
    rw [herrors] at hroom
    exact ⟨hroom.pair.1.misses, hroom.pair.2.refuses⟩
  · rw [← length_slotsAt_finish hascending]
    exact (hfills.at _).length_le

theorem stray_parenthesis_is_blamed_twice : ∃ first second,
    errorsAt ⟨4, 5⟩ (parse "let )").errors = [first, second] ∧ first.Misses ∧ second.Refuses := by
  have hmem : ⟨.rightParen, ")", ⟨4, 5⟩⟩ ∈ scan "let )" := by decide +kernel
  have herrors : errorsAt ⟨4, 5⟩ (parse "let )").errors =
      [⟨⟨.rightParen, ")", ⟨4, 5⟩⟩, .expected .identifier none⟩,
        ⟨⟨.rightParen, ")", ⟨4, 5⟩⟩, .cannotStart⟩] := by decide +kernel
  obtain ⟨-, -, htwice, -⟩ := errors_are_ordered_and_bounded "let )"
  exact ⟨_, _, herrors, (htwice _ hmem).2 _ _ herrors⟩

end ClosureLang
