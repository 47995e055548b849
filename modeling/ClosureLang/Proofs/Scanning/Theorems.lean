import ClosureLang.Proofs.Grammar.Theorems
import ClosureLang.Proofs.Locating.Places
import ClosureLang.Proofs.Scanning.Lemmas.Lexemes

/-!
# Scanning is tiling a text with tokens
-/

namespace ClosureLang

/-! ## Tilings -/

/-- A blank goes to the blanks that the layout begins with. -/
theorem Tiling.blank {c : Char} (hc : isBlank c = true) {offset : Nat} {text : List Char}
    {tokens : List Token} (h : Tiling (offset + c.utf8Size) text tokens) :
    Tiling offset (c :: text) tokens := by
  cases h with
  | blanks hall => exact .blanks (List.forall_mem_cons.mpr ⟨isBlank_iff_mem.mp hc, hall⟩)
  | @token _ blanks kind word rest tokens hall hlongest hrest =>
      have hoffset :
          offset + c.utf8Size + byteLength blanks = offset + byteLength (c :: blanks) := by
        rw [byteLength_cons, Nat.add_assoc]
      rw [hoffset] at hrest ⊢
      exact .token (List.forall_mem_cons.mpr ⟨isBlank_iff_mem.mp hc, hall⟩) hlongest hrest

theorem Scanner.tiling (s : Scanner) : Tiling s.offset s.rest s.tokens := by
  obtain ⟨text, offset⟩ := s
  match text with
  | [] =>
      rw [tokens_nil]
      exact .blanks (by simp)
  | c :: rest =>
      cases hc : isBlank c with
      | true =>
          rw [tokens_blank hc]
          exact (tiling ⟨rest, offset + c.utf8Size⟩).blank hc
      | false =>
          have hlt : (rest.drop (lexeme c rest).2.length).length < (c :: rest).length := by
            rw [List.length_drop, List.length_cons]; omega
          have hlongest := longest_lexeme hc rest
          have hrest := tiling ⟨rest.drop (lexeme c rest).2.length,
            offset + byteLength (c :: (lexeme c rest).2)⟩
          obtain ⟨behind, hbehind⟩ := lexeme_tail_prefix c rest
          rw [tokens_cons hc]
          generalize lexeme c rest = l at hlongest hrest hbehind ⊢
          subst hbehind
          rw [List.drop_left] at hlongest hrest ⊢
          have hblanks : ∀ c ∈ ([] : List Char), c ∈ blankCharacters := by simp
          exact .token hblanks hlongest hrest
termination_by s.rest.length

theorem Tiling.bounds {offset : Nat} {text : List Char} {tokens : List Token}
    (h : Tiling offset text tokens) :
    ∀ t ∈ tokens, offset ≤ t.span.start ∧ t.span.start < t.span.stop := by
  induction h with
  | blanks _ => simp
  | @token offset blanks kind word rest tokens _ hlongest _ ih =>
      have hpos := hlongest.lexical.byteLength_pos
      refine List.forall_mem_cons.mpr ⟨⟨by simp, by simpa using hpos⟩, fun t ht => ?_⟩
      have hbounds := ih t ht
      exact ⟨by omega, hbounds.2⟩

/-- The tokens stand one behind another. -/
theorem Tiling.pairwise {offset : Nat} {text : List Char} {tokens : List Token}
    (h : Tiling offset text tokens) :
    tokens.Pairwise fun t u => t.span.stop ≤ u.span.start := by
  induction h with
  | blanks _ => exact .nil
  | token _ _ hrest ih => exact .cons (fun u hu => (hrest.bounds u hu).1) ih

theorem Span.covers_of_mem {source : String} {token : Token} (h : token ∈ scan source) :
    token.span.Covers source.toList token.literal.toList := by
  obtain ⟨front, rest, htext, hstart, hstop⟩ := Scanner.exists_front token h
  have hstart : token.span.start = byteLength front := hstart.trans (Nat.zero_add _)
  exact ⟨front, rest, htext, hstart, by rw [byteLength_append, ← hstart, hstop]⟩

/-! ## Readings -/

namespace Scanner

theorem byteLength_rest (s : Scanner) : byteLength s.rest =
    byteLength (s.rest.takeWhile isBlank) + byteLength (s.rest.dropWhile isBlank) := by
  rw [← byteLength_append, List.takeWhile_append_dropWhile]

/-- What a reading has passed over and what is left are the whole. -/
theorem offset_next (s : Scanner) :
    s.next.2.offset + byteLength s.next.2.rest = s.offset + byteLength s.rest := by
  rw [byteLength_rest s]
  simp only [next]
  split
  · next hrest => rw [hrest, Nat.add_assoc]
  · next c rest hrest =>
    have htail := List.prefix_iff_eq_append.mp <| lexeme_tail_prefix c rest
    rw [hrest, ← htail, ← List.cons_append, byteLength_append]
    simp only [htail, Nat.add_assoc]

theorem next_of_eof {s : Scanner} (h : s.next.1.kind = .eof) :
    s.next = (.eof (s.offset + byteLength s.rest), ⟨[], s.offset + byteLength s.rest⟩) := by
  rw [byteLength_rest s]
  revert h
  simp only [next]
  split
  · next hrest =>
    intro _
    rw [hrest]
    rfl
  · next c rest _ => exact fun h => absurd h (kind_lexeme_ne_eof c rest)

/-- Behind the last token a scanner reads the end and stays where it is. -/
theorem reading_of_nil (offset n : Nat) : reading ⟨[], offset⟩ n = .eof offset := by
  induction n with
  | zero => rfl
  | succ n ih => exact ih

/-- The readings of a scanner are its tokens, and then the end for ever. -/
theorem reading_eq (s : Scanner) (n : Nat) :
    s.reading n = s.tokens.getD n (.eof (s.offset + byteLength s.rest)) := by
  induction n generalizing s with
  | zero =>
      rw [tokens]
      split
      · next h =>
        rw [reading, after, next_of_eof h]
        rfl
      · rfl
  | succ n ih =>
      rw [tokens]
      split
      · next h =>
        rw [reading, after, next_of_eof h]
        exact reading_of_nil _ n
      · rw [List.getD_cons_succ, ← offset_next s]
        exact ih s.next.2

end Scanner

/-- The tokens of a source, one behind another, are cut out of it from left to right with only
blanks around them, each as long as it can be. Reading gives them in turn and then, however often,
the end. -/
theorem scan_tiles_source (source : String) :
    Tiling 0 source.toList (scan source) ∧
      (scan source).Pairwise (fun t u => t.span.stop ≤ u.span.start) ∧
      (∀ t ∈ scan source, t.kind ≠ .eof ∧ t.span.start < t.span.stop ∧
        t.span.Covers source.toList t.literal.toList) ∧
      ∀ n, (Scanner.ofString source).reading n =
        (scan source).getD n ⟨.eof, "", ⟨source.utf8ByteSize, source.utf8ByteSize + 1⟩⟩ := by
  have htiling : Tiling 0 source.toList (scan source) := (Scanner.ofString source).tiling
  refine ⟨htiling, htiling.pairwise, fun t ht => ?_, fun n => ?_⟩
  · exact ⟨Scanner.kind_ne_eof _ t ht, (htiling.bounds t ht).2, Span.covers_of_mem ht⟩
  · have hlength : 0 + byteLength source.toList = source.utf8ByteSize := by
      rw [Nat.zero_add, byteLength_eq_utf8ByteSize, String.ofList_toList]
    rw [← hlength]
    exact Scanner.reading_eq (Scanner.ofString source) n

end ClosureLang
