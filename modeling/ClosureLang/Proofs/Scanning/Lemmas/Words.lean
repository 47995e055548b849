import ClosureLang.Proofs.Scanning.Lemmas.Splitting
import ClosureLang.Proofs.Scanning.Lexical
import Mathlib.Data.List.DropRight
import Mathlib.Data.List.TakeWhile

/-!
# The words of a text

What the scanner reads, wherever it stands.
-/

namespace ClosureLang

/-- A token without its place. -/
def Token.word (token : Token) : Kind × String :=
  (token.kind, token.literal)

def words (text : String) : List (Kind × String) :=
  (scan text).map Token.word

/-- Whether a text is one token. -/
def Spells (kind : Kind) (text : String) : Prop :=
  ∃ c tail, text.toList = c :: tail ∧ isBlank c = false ∧ lexeme c tail = (kind, tail)

theorem Scanner.map_word_tokens (text : List Char) (m n : Nat) :
    (tokens ⟨text, m⟩).map Token.word = (tokens ⟨text, n⟩).map Token.word := by
  match text with
  | [] => rw [tokens_nil, tokens_nil]
  | c :: rest =>
      cases hc : isBlank c with
      | true => rw [tokens_blank hc, tokens_blank hc, map_word_tokens rest]
      | false =>
          have hlt : (rest.drop (lexeme c rest).2.length).length < (c :: rest).length := by
            rw [List.length_drop, List.length_cons]; omega
          rw [tokens_cons hc, tokens_cons hc, List.map_cons, List.map_cons,
            map_word_tokens (rest.drop _)]
          rfl
termination_by text.length

theorem words_ofList (text : List Char) (n : Nat) :
    words (String.ofList text) = (Scanner.tokens ⟨text, n⟩).map Token.word := by
  rw [words, scan, Scanner.ofString, String.toList_ofList, Scanner.map_word_tokens]

theorem words_empty : words "" = [] := by
  rw [words, scan, Scanner.ofString, String.toList_empty, Scanner.tokens_nil, List.map_nil]

theorem words_cons {c : Char} (hc : isBlank c = false) (rest : List Char) :
    words (String.ofList (c :: rest)) =
      ((lexeme c rest).1, String.ofList (c :: (lexeme c rest).2)) ::
        words (String.ofList (rest.drop (lexeme c rest).2.length)) := by
  rw [words_ofList _ 0, Scanner.tokens_cons hc, List.map_cons, ← words_ofList]
  rfl

theorem words_append {a b : String} (h : Apart a.toList b.toList) :
    words (a ++ b) = words a ++ words b := by
  rw [words, scan, Scanner.ofString, String.toList_append, Scanner.tokens_append h, List.map_append,
    Scanner.map_word_tokens b.toList _ 0]
  rfl

theorem words_of_spells {kind : Kind} {text : String} (h : Spells kind text) :
    words text = [(kind, text)] := by
  obtain ⟨c, tail, htext, hc, hl⟩ := h
  have hof : text = String.ofList (c :: tail) := by rw [← htext, String.ofList_toList]
  rw [hof, words_cons hc, hl]
  simp [words, scan, Scanner.ofString, Scanner.tokens_nil]

theorem lexeme_tail (c : Char) (rest : List Char) :
    lexeme c (lexeme c rest).2 = lexeme c rest := by
  cases ha : c.isAlpha with
  | true => simp only [lexeme, ha, if_true, List.takeWhile_idem]
  | false =>
      cases hd : c.isDigit with
      | true =>
          simp only [lexeme, ha, hd, if_true, List.takeWhile_idem, Bool.false_eq_true, if_false]
      | false =>
          simp only [lexeme, ha, hd, Bool.false_eq_true, if_false]
          cases hk : withEqualSign? c with
          | none => simp
          | some kind =>
              by_cases hr : rest.head? = some '='
              · simp [hr]
              · simp [hr]

theorem Scanner.spells_of_mem {s : Scanner} : ∀ t ∈ s.tokens, Spells t.kind t.literal := by
  obtain ⟨text, offset⟩ := s
  match text with
  | [] => simp [tokens_nil]
  | c :: rest =>
      cases hc : isBlank c with
      | true =>
          rw [tokens_blank hc]
          exact spells_of_mem
      | false =>
          have hlt : (rest.drop (lexeme c rest).2.length).length < (c :: rest).length := by
            rw [List.length_drop, List.length_cons]; omega
          rw [tokens_cons hc]
          intro t ht
          cases List.mem_cons.mp ht with
          | inl heq =>
              subst heq
              exact ⟨c, _, String.toList_ofList, hc, by rw [lexeme_tail]⟩
          | inr hmem => exact spells_of_mem t hmem
termination_by s.rest.length

theorem mem_blankCharacters {c : Char} :
    c ∈ blankCharacters ↔ c = ' ' ∨ c = '\t' ∨ c = '\n' ∨ c = '\r' := by
  simp [blankCharacters]

/-- What the scanner passes over are just the characters that stand between tokens. -/
theorem isBlank_iff_mem {c : Char} : isBlank c = true ↔ c ∈ blankCharacters := by
  simp [isBlank, mem_blankCharacters, or_assoc]

theorem isBlank_eq_false_iff {c : Char} : isBlank c = false ↔ c ∉ blankCharacters := by
  rw [← isBlank_iff_mem, Bool.not_eq_true]

theorem not_blank_of {p : Char → Bool}
    (hp : p ' ' = false ∧ p '\t' = false ∧ p '\n' = false ∧ p '\r' = false) {c : Char}
    (h : p c = true) : isBlank c = false := by
  cases hb : isBlank c with
  | false => rfl
  | true =>
      rcases mem_blankCharacters.mp (isBlank_iff_mem.mp hb) with rfl | rfl | rfl | rfl <;>
        simp [hp] at h

theorem withEqualSign?_of {p : Char → Bool}
    (hp : p '=' = false ∧ p '!' = false ∧ p '<' = false ∧ p '>' = false) {c : Char}
    (h : p c = true) : withEqualSign? c = none := by
  unfold withEqualSign?
  split <;> first | rfl | simp [hp] at h

/-! ## Characters that merge with none -/

def isFirm (c : Char) : Bool :=
  !c.isAlpha && !c.isDigit && (withEqualSign? c).isNone

theorem merges_eq_false_of_left {c : Char} (h : isFirm c = true) (d : Char) :
    merges c d = false := by
  simp only [isFirm, Bool.and_eq_true, Bool.not_eq_true', Option.isNone_iff_eq_none] at h
  simp [merges, h.1.1, h.1.2, h.2]

theorem merges_eq_false_of_right {d : Char} (h : isFirm d = true) (c : Char) :
    merges c d = false := by
  simp only [isFirm, Bool.and_eq_true, Bool.not_eq_true'] at h
  have hd : d ≠ '=' := by rintro rfl; exact absurd h.2 (by decide)
  simp [merges, h.1.1, h.1.2, hd]

theorem isFirm_of_isBlank {c : Char} (h : isBlank c = true) : isFirm c = true := by
  rcases mem_blankCharacters.mp (isBlank_iff_mem.mp h) with rfl | rfl | rfl | rfl <;> decide

theorem words_append_of_last {a : String} (h : a.toList.getLast?.any isFirm = true) (b : String) :
    words (a ++ b) = words a ++ words b := by
  apply words_append
  intro c hc d _
  rw [Option.mem_def.mp hc] at h
  exact merges_eq_false_of_left h d

theorem words_append_of_head {b : String} (h : b.toList.head?.any isFirm = true) (a : String) :
    words (a ++ b) = words a ++ words b := by
  apply words_append
  intro c _ d hd
  rw [Option.mem_def.mp hd] at h
  exact merges_eq_false_of_right h c

/-- Whether a text stays apart from all that stands beside it. -/
def isSeparator (text : String) : Bool :=
  text.toList.head?.any isFirm && text.toList.getLast?.any isFirm

theorem words_append_separator {m : String} (h : isSeparator m = true) (a b : String) :
    words (a ++ (m ++ b)) = words a ++ (words m ++ words b) := by
  rw [isSeparator, Bool.and_eq_true] at h
  have hhead : (m ++ b).toList.head?.any isFirm = true := by
    rw [String.toList_append, List.head?_append]
    cases hm : m.toList.head? with
    | none => rw [hm] at h; exact absurd h.1 (by decide)
    | some c => rw [hm] at h; exact h.1
  rw [words_append_of_head hhead, words_append_of_last h.2]

/-! ## Runs of letters and digits -/

theorem isDigit_of_isAlpha {c : Char} (h : c.isAlpha = true) : c.isDigit = false := by
  cases hd : c.isDigit with
  | false => rfl
  | true =>
      have hdigit := (Char.isDigit_iff_toNat.mp hd).2
      have halpha : (decide ('A'.val ≤ c.val ∧ c.val ≤ 'Z'.val) ||
          decide ('a'.val ≤ c.val) && decide (c.val ≤ 'z'.val)) = true := h
      simp only [Bool.or_eq_true, Bool.and_eq_true, decide_eq_true_eq, UInt32.le_iff_toNat_le]
        at halpha
      have hnat : c.val.toNat = c.toNat := rfl
      have hletters : '9'.toNat < 'A'.val.toNat ∧ '9'.toNat < 'a'.val.toNat := by decide
      omega

theorem isAlpha_of_isDigit {c : Char} (h : c.isDigit = true) : c.isAlpha = false := by
  cases ha : c.isAlpha with
  | false => rfl
  | true => rw [isDigit_of_isAlpha ha] at h; cases h

/-- The characters of which a sort of token is made, and its kinds. -/
structure RunOf (p : Char → Bool) (kindOf : List Char → Kind) : Prop where
  isRun (word) : (kindOf word).isRun = true
  not_blank {c} : p c = true → isBlank c = false
  lexeme_eq {c rest} : p c = true →
    lexeme c rest = (kindOf (c :: rest.takeWhile p), rest.takeWhile p)
  ends {c d} : p c = true → p d = false → merges c d = false
  starts {c d} : p c = false → p d = true → merges c d = false

theorem runOf_letters : RunOf Char.isAlpha wordKind where
  isRun := isRun_wordKind
  not_blank := not_blank_of (by decide)
  lexeme_eq h := by simp [lexeme, h]
  ends {c d} hc hd := by
    have hsign : withEqualSign? c = none := withEqualSign?_of (by decide) hc
    simp [merges, hd, isDigit_of_isAlpha hc, hsign]
  starts {c d} hc hd := by
    have hsign : d ≠ '=' := by rintro rfl; exact absurd hd (by decide)
    simp [merges, hc, isDigit_of_isAlpha hd, hsign]

theorem runOf_digits : RunOf Char.isDigit fun _ => .integer where
  isRun _ := rfl
  not_blank := not_blank_of (by decide)
  lexeme_eq h := by simp [lexeme, h, isAlpha_of_isDigit h]
  ends {c d} hc hd := by
    have hsign : withEqualSign? c = none := withEqualSign?_of (by decide) hc
    simp [merges, hd, isAlpha_of_isDigit hc, hsign]
  starts {c d} hc hd := by
    have hsign : d ≠ '=' := by rintro rfl; exact absurd hd (by decide)
    simp [merges, hc, isAlpha_of_isDigit hd, hsign]

theorem eq_false_of_mem_head?_dropWhile {p : Char → Bool} {text : List Char} :
    ∀ c ∈ (text.dropWhile p).head?, p c = false := by
  intro c hc
  have h := List.head?_dropWhile_not p text
  rw [Option.mem_def.mp hc] at h
  exact h

theorem words_ofList_append {a b : List Char} (h : Apart a b) :
    words (String.ofList (a ++ b)) = words (String.ofList a) ++ words (String.ofList b) := by
  rw [String.ofList_append, words_append]
  simpa only [String.toList_ofList] using h

/-- A text is cut where the run at its end begins. -/
theorem exists_last_run {p : Char → Bool} {text : List Char} {c : Char}
    (h : text.getLast? = some c) (hc : p c = true) :
    ∃ front word, text = front ++ word ∧ word ≠ [] ∧ (∀ x ∈ word, p x = true) ∧
      ∀ x ∈ front.getLast?, p x = false := by
  refine ⟨text.rdropWhile p, text.rtakeWhile p, ?_, ?_, ?_, ?_⟩
  · rw [List.rdropWhile_append_rtakeWhile]
  · obtain ⟨init, hinit⟩ := List.getLast?_eq_some_iff.mp h
    rw [hinit, List.rtakeWhile_concat_pos _ _ _ hc]
    simp
  · exact fun x hx => List.mem_rtakeWhile_imp hx
  · rw [List.rdropWhile, List.getLast?_reverse]
    exact eq_false_of_mem_head?_dropWhile

/-- A text is cut where the run at its head ends. -/
theorem exists_first_run {p : Char → Bool} {text : List Char} {c : Char}
    (h : text.head? = some c) (hc : p c = true) :
    ∃ word behind, text = word ++ behind ∧ word ≠ [] ∧ (∀ x ∈ word, p x = true) ∧
      ∀ x ∈ behind.head?, p x = false := by
  refine ⟨text.takeWhile p, text.dropWhile p, ?_, ?_, ?_, ?_⟩
  · rw [List.takeWhile_append_dropWhile]
  · obtain ⟨tail, htail⟩ := List.head?_eq_some_iff.mp h
    rw [htail, List.takeWhile_cons_of_pos hc]
    simp
  · exact fun x hx => List.mem_takeWhile_imp hx
  · exact eq_false_of_mem_head?_dropWhile

namespace RunOf

variable {p : Char → Bool} {kindOf : List Char → Kind}

theorem words_run (hp : RunOf p kindOf) {word : List Char} (hne : word ≠ [])
    (hall : ∀ c ∈ word, p c) :
    words (String.ofList word) = [(kindOf word, String.ofList word)] := by
  match word with
  | c :: tail =>
      apply words_of_spells
      have htail : tail.takeWhile p = tail :=
        List.takeWhile_eq_self_iff.mpr fun x hx => hall x (List.mem_cons_of_mem c hx)
      have hc : p c = true := hall c List.mem_cons_self
      exact ⟨c, tail, String.toList_ofList, hp.not_blank hc, by rw [hp.lexeme_eq hc, htail]⟩

theorem apart_before (hp : RunOf p kindOf) {front text : List Char}
    (hfront : ∀ c ∈ front.getLast?, p c = false) (htext : ∀ c ∈ text.head?, p c = true) :
    Apart front text :=
  fun c hc d hd => hp.starts (hfront c hc) (htext d hd)

theorem apart_behind (hp : RunOf p kindOf) {word behind : List Char}
    (hword : ∀ c ∈ word, p c = true) (hbehind : ∀ c ∈ behind.head?, p c = false) :
    Apart word behind :=
  fun c hc d hd => hp.ends (hword c (List.mem_of_getLast? hc)) (hbehind d hd)

/-- A run at the end of a text and one at the head of the text behind it are read as one. -/
theorem words_merged (hp : RunOf p kindOf) {a b : String} {c d : Char}
    (ha : a.toList.getLast? = some c) (hc : p c = true)
    (hb : b.toList.head? = some d) (hd : p d = true) :
    ∃ front behind v w, words a = front ++ [(kindOf v, String.ofList v)] ∧
      words b = (kindOf w, String.ofList w) :: behind ∧
      words (a ++ b) = front ++ (kindOf (v ++ w), String.ofList (v ++ w)) :: behind := by
  -- Each text is cut where the run next to the seam begins or ends.
  obtain ⟨front, v, hfront, hv, hvall, hfv⟩ := exists_last_run ha hc
  obtain ⟨w, behind, hbehind, hw, hwall, hwb⟩ := exists_first_run hb hd
  have hvw : ∀ x ∈ v ++ w, p x = true := by
    intro x hx
    exact (List.mem_append.mp hx).elim (hvall x) (hwall x)
  refine ⟨words (String.ofList front), words (String.ofList behind), v, w, ?_, ?_, ?_⟩
  · have hleft : Apart front v := hp.apart_before hfv fun x hx => hvall x (List.mem_of_head? hx)
    rw [← String.ofList_toList (s := a), hfront, words_ofList_append hleft, hp.words_run hv hvall]
  · have hright : Apart w behind := hp.apart_behind hwall hwb
    rw [← String.ofList_toList (s := b), hbehind, words_ofList_append hright,
      hp.words_run hw hwall]
    rfl
  · have hne : v ++ w ≠ [] := List.append_ne_nil_of_left_ne_nil hv w
    have htext : a ++ b = String.ofList (front ++ ((v ++ w) ++ behind)) := by
      rw [← String.ofList_toList (s := a ++ b), String.toList_append, hfront, hbehind]
      simp only [List.append_assoc]
    have hleft : Apart front ((v ++ w) ++ behind) := by
      refine hp.apart_before hfv fun x hx => hvw x ?_
      rw [List.head?_append_of_ne_nil _ hne] at hx
      exact List.mem_of_head? hx
    have hright : Apart (v ++ w) behind := hp.apart_behind hvw hwb
    rw [htext, words_ofList_append hleft, words_ofList_append hright, hp.words_run hne hvw]
    rfl

end RunOf

end ClosureLang
