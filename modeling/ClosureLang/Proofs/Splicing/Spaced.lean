import ClosureLang.Proofs.Scanning.Lemmas.Words

/-!
# Texts side by side

When two texts may stand side by side without a token over the seam, and how words are put together
with blanks between them.
-/

namespace ClosureLang

/-- Characters that are never neighbours in a token: they are not two letters, not two digits, and
not a sign that an equal sign completes. -/
structure Parted (c d : Char) : Prop where
  letters : ¬ (c.isAlpha = true ∧ d.isAlpha = true)
  digits : ¬ (c.isDigit = true ∧ d.isDigit = true)
  sign : ¬ (c ∈ ['=', '!', '<', '>'] ∧ d = '=')

theorem withEqualSign?_isSome_iff {c : Char} :
    (withEqualSign? c).isSome = true ↔ c ∈ ['=', '!', '<', '>'] := by
  unfold withEqualSign?
  split <;> simp_all

theorem merges_eq_false_iff {c d : Char} : merges c d = false ↔ Parted c d := by
  rw [← Bool.not_eq_true]
  simp only [merges, Bool.or_eq_true, Bool.and_eq_true, beq_iff_eq, withEqualSign?_isSome_iff,
    not_or]
  exact ⟨fun ⟨⟨hl, hd⟩, hs⟩ => ⟨hl, hd, hs⟩, fun h => ⟨⟨h.letters, h.digits⟩, h.sign⟩⟩

instance (c d : Char) : Decidable (Parted c d) :=
  decidable_of_iff _ merges_eq_false_iff

/-- One of the texts is empty, or the last character of the one and the first of the other are
parted. -/
def SideBySide (a b : String) : Prop :=
  ∀ c ∈ a.toList.getLast?, ∀ d ∈ b.toList.head?, Parted c d

theorem SideBySide.apart {a b : String} (h : SideBySide a b) : Apart a.toList b.toList :=
  fun c hc d hd => merges_eq_false_iff.mpr (h c hc d hd)

/-- A text of blanks, one at least. -/
structure IsGap (gap : String) : Prop where
  ne_empty : gap ≠ ""
  blanks : ∀ c ∈ gap.toList, c ∈ blankCharacters

/-- The words in turn with gaps between neighbours. The gap with the number `n` has `n` further
words behind the one that it stands in front of. -/
def spacedOut (gap : Nat → String) : List String → String
  | [] => ""
  | [word] => word
  | word :: next :: words => word ++ (gap words.length ++ spacedOut gap (next :: words))

/-! ## The words of what is spaced out -/

theorem words_of_blanks {text : List Char} (h : ∀ c ∈ text, c ∈ blankCharacters) :
    words (String.ofList text) = [] := by
  induction text with
  | nil => exact words_empty
  | cons c text ih =>
      obtain ⟨hc, htext⟩ := List.forall_mem_cons.mp h
      rw [words_ofList _ 0, Scanner.tokens_blank (isBlank_iff_mem.mpr hc), ← words_ofList]
      exact ih htext

theorem IsGap.words_eq {gap : String} (h : IsGap gap) : words gap = [] := by
  rw [← String.ofList_toList (s := gap)]
  exact words_of_blanks h.blanks

theorem IsGap.isSeparator {gap : String} (h : IsGap gap) : isSeparator gap = true := by
  have hne : gap.toList ≠ [] := fun hnil => h.ne_empty (String.toList_eq_nil_iff.mp hnil)
  have hfirm (c : Char) (hc : c ∈ gap.toList) : isFirm c = true :=
    isFirm_of_isBlank (isBlank_iff_mem.mpr (h.blanks c hc))
  rw [ClosureLang.isSeparator, List.head?_eq_some_head hne, List.getLast?_eq_some_getLast hne,
    Option.any_some, Option.any_some, hfirm _ (List.head_mem hne), hfirm _ (List.getLast_mem hne)]
  rfl

/-- Tokens that are spelled out with gaps between them are read again. -/
theorem words_spacedOut {gap : Nat → String} (hgap : ∀ n, IsGap (gap n)) {tokens : List Token}
    (h : ∀ t ∈ tokens, Spells t.kind t.literal) :
    words (spacedOut gap (tokens.map Token.literal)) = tokens.map Token.word := by
  match tokens with
  | [] => exact words_empty
  | [token] => exact words_of_spells (h token List.mem_cons_self)
  | token :: next :: more =>
      obtain ⟨htoken, hmore⟩ := List.forall_mem_cons.mp h
      have hrest := words_spacedOut hgap hmore
      rw [List.map_cons, List.map_cons, spacedOut, ← List.map_cons,
        words_append_separator (hgap _).isSeparator, (hgap _).words_eq, words_of_spells htoken,
        hrest]
      rfl

end ClosureLang
