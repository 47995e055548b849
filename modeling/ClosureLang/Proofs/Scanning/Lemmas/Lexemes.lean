import ClosureLang.Proofs.Scanning.Lexical
import ClosureLang.Proofs.Scanning.Lemmas.Words

/-!
# Lexemes are the longest tokens

What a scanner takes where it stands, against the lexical grammar.
-/

namespace ClosureLang

/-- The first character of a token says what the others may be. -/
theorem Lexical.of_cons {kind : Kind} {c : Char} {text : List Char} (h : Lexical kind (c :: text)) :
    (c.isAlpha = true ∧ ∀ d ∈ text, d.isAlpha = true) ∨
      (c.isDigit = true ∧ ∀ d ∈ text, d.isDigit = true) ∨
      (c.isAlpha = false ∧ c.isDigit = false ∧
        (text = [] ∨ text = ['='] ∧ (withEqualSign? c).isSome = true)) := by
  cases h with
  | keyword hk =>
      have hall : ∀ entry ∈ keywords, entry.1.toList.all Char.isAlpha = true := by decide +kernel
      have hword := hall _ hk
      rw [String.toList_ofList, List.all_cons, Bool.and_eq_true, List.all_eq_true] at hword
      exact .inl hword
  | identifier _ hall _ => exact .inl (List.forall_mem_cons.mp hall)
  | integer _ hall => exact .inr (.inl (List.forall_mem_cons.mp hall))
  | pair hk =>
      have hall : ∀ entry ∈ signs, entry.1.isAlpha = false ∧ entry.1.isDigit = false ∧
          (withEqualSign? entry.1).isSome = true := by decide
      obtain ⟨ha, hd, hs⟩ := hall _ hk
      exact .inr (.inr ⟨ha, hd, .inr ⟨rfl, hs⟩⟩)
  | symbol hk =>
      have hall : ∀ entry ∈ symbols, entry.1.isAlpha = false ∧ entry.1.isDigit = false := by decide
      obtain ⟨ha, hd⟩ := hall _ hk
      exact .inr (.inr ⟨ha, hd, .inl rfl⟩)
  | illegal hc => exact .inr (.inr ⟨hc.not_letter, hc.not_digit, .inl rfl⟩)

theorem Lexical.letters {kind : Kind} {c : Char} {text : List Char} (h : Lexical kind (c :: text))
    (hc : c.isAlpha = true) : ∀ d ∈ text, d.isAlpha = true := by
  rcases h.of_cons with ⟨_, hall⟩ | ⟨hd, _⟩ | ⟨ha, _⟩
  · exact hall
  · exact absurd (isAlpha_of_isDigit hd) (by simp [hc])
  · exact absurd ha (by simp [hc])

theorem Lexical.digits {kind : Kind} {c : Char} {text : List Char} (h : Lexical kind (c :: text))
    (hc : c.isDigit = true) : ∀ d ∈ text, d.isDigit = true := by
  rcases h.of_cons with ⟨ha, _⟩ | ⟨_, hall⟩ | ⟨_, hd, _⟩
  · exact absurd (isDigit_of_isAlpha ha) (by simp [hc])
  · exact hall
  · exact absurd hd (by simp [hc])

theorem Lexical.sign {kind : Kind} {c : Char} {text : List Char} (h : Lexical kind (c :: text))
    (ha : c.isAlpha = false) (hd : c.isDigit = false) :
    text = [] ∨ text = ['='] ∧ (withEqualSign? c).isSome = true := by
  rcases h.of_cons with ⟨ha', _⟩ | ⟨hd', _⟩ | ⟨_, _, htext⟩
  · exact absurd ha' (by simp [ha])
  · exact absurd hd' (by simp [hd])
  · exact htext

theorem lexical_wordKind {word : List Char} (hne : word ≠ [])
    (hall : ∀ c ∈ word, c.isAlpha = true) : Lexical (wordKind word) word := by
  by_cases h : (String.ofList word, wordKind word) ∈ keywords
  · exact .keyword h
  · have hkind : wordKind word = .identifier := by
      revert h
      unfold wordKind
      split
      case h_8 => exact fun _ => rfl
      all_goals exact fun h => absurd (by decide +kernel) h
    have hkinds : ∀ entry ∈ keywords, wordKind entry.1.toList = entry.2 := by decide +kernel
    rw [hkind]
    refine .identifier hne hall fun kind hk => h ?_
    have hsame : wordKind (String.ofList word).toList = kind := hkinds _ hk
    rw [String.toList_ofList] at hsame
    rwa [hsame]

theorem lexical_symbolKind {c : Char} (hb : isBlank c = false) (ha : c.isAlpha = false)
    (hd : c.isDigit = false) : Lexical (symbolKind c) [c] := by
  unfold symbolKind
  split
  case h_15 =>
    refine .illegal ⟨isBlank_eq_false_iff.mp hb, ha, hd, fun kind hk => ?_⟩
    simp_all only [symbols, List.mem_cons, Prod.mk.injEq, List.not_mem_nil, imp_false, false_and,
      or_false]
  all_goals exact .symbol (by decide)

theorem mem_signs_of_withEqualSign? {c : Char} {kind : Kind} (h : withEqualSign? c = some kind) :
    (c, kind) ∈ signs := by
  unfold withEqualSign? at h
  split at h <;> cases h <;> decide

theorem drop_length_takeWhile (p : Char → Bool) (text : List Char) :
    text.drop (text.takeWhile p).length = text.dropWhile p := by
  have hfront := List.prefix_iff_eq_append.mp (List.takeWhile_prefix p (l := text))
  exact List.append_cancel_left (hfront.trans List.takeWhile_append_dropWhile.symm)

/-- A run is taken up to its end, and a token that begins with it has nothing else in it. -/
theorem longest_run {p : Char → Bool} {kind : Kind} {c : Char} {rest : List Char}
    (hlexical : Lexical kind (c :: rest.takeWhile p))
    (hall : ∀ {other text}, Lexical other (c :: text) → ∀ d ∈ text, p d = true) :
    Longest kind (c :: rest.takeWhile p) (rest.drop (rest.takeWhile p).length) := by
  refine ⟨hlexical, fun {more behind other} hrest h => ?_⟩
  rw [drop_length_takeWhile] at hrest
  cases more with
  | nil => rfl
  | cons d more =>
      have hend : p d = false := eq_false_of_mem_head?_dropWhile d (by rw [hrest]; rfl)
      have hon : p d = true := hall h d (by simp)
      exact absurd hend (by simp [hon])

theorem longest_symbol {c : Char} (hb : isBlank c = false) (ha : c.isAlpha = false)
    (hd : c.isDigit = false) (rest : List Char) :
    Longest (lexeme c rest).1 (c :: (lexeme c rest).2) (rest.drop (lexeme c rest).2.length) := by
  simp only [lexeme, ha, hd, Bool.false_eq_true, if_false]
  split
  · next kind hhead hsign =>
    refine ⟨.pair (mem_signs_of_withEqualSign? hsign), fun {more _ _} _ h => ?_⟩
    have htext : '=' :: more = [] ∨ '=' :: more = ['='] ∧ _ := h.sign ha hd
    exact (List.cons.inj (htext.resolve_left (List.cons_ne_nil _ _)).1).2
  · next hno =>
    refine ⟨lexical_symbolKind hb ha hd, fun {more behind other} hrest h => ?_⟩
    have htext : more = [] ∨ more = ['='] ∧ _ := h.sign ha hd
    refine htext.resolve_right ?_
    rintro ⟨hmore, hsome⟩
    obtain ⟨kind, hsign⟩ := Option.isSome_iff_exists.mp hsome
    have hrest : rest = ['='] ++ behind := hmore ▸ hrest
    exact hno kind (by rw [hrest]; rfl) hsign

/-- The scanner takes a token that could not be longer. -/
theorem longest_lexeme {c : Char} (hb : isBlank c = false) (rest : List Char) :
    Longest (lexeme c rest).1 (c :: (lexeme c rest).2) (rest.drop (lexeme c rest).2.length) := by
  cases ha : c.isAlpha with
  | true =>
      rw [runOf_letters.lexeme_eq ha]
      have hword : ∀ d ∈ c :: rest.takeWhile Char.isAlpha, d.isAlpha = true :=
        List.forall_mem_cons.mpr ⟨ha, fun d hd => List.mem_takeWhile_imp hd⟩
      exact longest_run (lexical_wordKind (List.cons_ne_nil _ _) hword) fun h => h.letters ha
  | false =>
      cases hd : c.isDigit with
      | true =>
          rw [runOf_digits.lexeme_eq hd]
          have hdigits : ∀ d ∈ c :: rest.takeWhile Char.isDigit, d.isDigit = true :=
            List.forall_mem_cons.mpr ⟨hd, fun d hd => List.mem_takeWhile_imp hd⟩
          exact longest_run (.integer (List.cons_ne_nil _ _) hdigits) fun h => h.digits hd
      | false => exact longest_symbol hb ha hd rest

theorem Lexical.ne_nil {kind : Kind} {text : List Char} (h : Lexical kind text) : text ≠ [] := by
  cases h with
  | keyword hk =>
      rintro rfl
      have hall : ∀ entry ∈ keywords, entry.1 ≠ "" := by decide +kernel
      exact hall _ hk rfl
  | identifier hne _ _ => exact hne
  | integer hne _ => exact hne
  | _ => exact List.cons_ne_nil _ _

theorem Lexical.byteLength_pos {kind : Kind} {text : List Char} (h : Lexical kind text) :
    0 < byteLength text := by
  match text, h.ne_nil with
  | c :: _, _ => exact Nat.add_pos_left c.utf8Size_pos _

theorem Scanner.lexical_of_mem {s : Scanner} {t : Token} (ht : t ∈ s.tokens) :
    Lexical t.kind t.literal.toList := by
  obtain ⟨c, tail, htext, hc, hlexeme⟩ := spells_of_mem t ht
  have hlexical := (longest_lexeme hc tail).lexical
  rw [hlexeme] at hlexical
  rw [htext]
  exact hlexical

end ClosureLang
