import ClosureLang.Token.Scanner

/-!
# Scanning a text in two parts
-/

namespace ClosureLang

/-- Whether a token that ends with `c` might go on with `d`. -/
def merges (c d : Char) : Bool :=
  c.isAlpha && d.isAlpha || c.isDigit && d.isDigit || (withEqualSign? c).isSome && d == '='

/-- No token goes over the seam between two texts. -/
def Apart (a b : List Char) : Prop :=
  ∀ c ∈ a.getLast?, ∀ d ∈ b.head?, merges c d = false

theorem Apart.of_suffix {a a' b : List Char} (h : Apart a b) (hs : a' <:+ a) : Apart a' b := by
  obtain ⟨front, rfl⟩ := hs
  intro c hc d hd
  exact h c (by rw [List.getLast?_append, hc]; rfl) d hd

theorem byteLength_cons (c : Char) (text : List Char) :
    byteLength (c :: text) = c.utf8Size + byteLength text :=
  rfl

theorem byteLength_append (a b : List Char) :
    byteLength (a ++ b) = byteLength a + byteLength b := by
  induction a with
  | nil => exact (Nat.zero_add _).symm
  | cons c a ih => rw [List.cons_append, byteLength_cons, byteLength_cons, ih, Nat.add_assoc]

/-! ## One token -/

theorem takeWhile_append_eq {p : Char → Bool} {a b : List Char}
    (h : a.all p = true → ∀ d ∈ b.head?, p d = false) :
    (a ++ b).takeWhile p = a.takeWhile p := by
  induction a with
  | nil =>
      cases b with
      | nil => rfl
      | cons d b => simp [h rfl d rfl]
  | cons c a ih =>
      cases hc : p c with
      | false => simp [hc]
      | true =>
          simp only [List.cons_append, List.takeWhile_cons, hc, if_true]
          rw [ih fun ha => h (by simp [hc, ha])]

theorem lexeme_tail_prefix (c : Char) (rest : List Char) : (lexeme c rest).2 <+: rest := by
  simp only [lexeme]
  split
  · exact List.takeWhile_prefix _
  · split
    · exact List.takeWhile_prefix _
    · split
      · next hd _ =>
        cases rest with
        | nil => cases hd
        | cons d rest => cases hd; exact ⟨rest, rfl⟩
      · exact List.nil_prefix

theorem Apart.head_eq_false {p : Char → Bool} {c : Char} {a b : List Char} (h : Apart (c :: a) b)
    (hp : ∀ x y, p x = true → p y = true → merges x y = true) (hc : p c = true)
    (ha : a.all p = true) : ∀ d ∈ b.head?, p d = false := by
  intro d hd
  have hx := List.getLast?_eq_some_getLast (List.cons_ne_nil c a)
  have hm := List.getLast_mem (List.cons_ne_nil c a)
  have hpx : p ((c :: a).getLast (List.cons_ne_nil c a)) = true := by
    cases List.mem_cons.mp hm with
    | inl heq => rwa [heq]
    | inr hm => exact List.all_eq_true.mp ha _ hm
  cases hd' : p d with
  | false => rfl
  | true => exact absurd (h _ hx d hd) (by simp [hp _ d hpx hd'])

/-- What stands behind the seam does not change the token in front of it. -/
theorem lexeme_append {c : Char} {a b : List Char} (h : Apart (c :: a) b) :
    lexeme c (a ++ b) = lexeme c a := by
  have halpha : ∀ x y : Char, x.isAlpha = true → y.isAlpha = true → merges x y = true := by
    intro x y hx hy; simp [merges, hx, hy]
  have hdigit : ∀ x y : Char, x.isDigit = true → y.isDigit = true → merges x y = true := by
    intro x y hx hy; simp [merges, hx, hy]
  simp only [lexeme]
  split
  · next hc => rw [takeWhile_append_eq (h.head_eq_false halpha hc)]
  · split
    · next hc => rw [takeWhile_append_eq (h.head_eq_false hdigit hc)]
    · cases a with
      | cons x a => rfl
      | nil =>
          cases b with
          | nil => rfl
          | cons d b =>
              have hm := h c rfl d rfl
              cases hk : withEqualSign? c with
              | none => simp
              | some kind =>
                  have hd : d ≠ '=' := by rintro rfl; simp [merges, hk] at hm
                  simp [hd]

/-- The kinds of words and numbers. -/
def Kind.isRun : Kind → Bool
  | identifier | integer => true
  | fnWord | letWord | trueWord | falseWord | ifWord | elseWord | returnWord => true
  | _ => false

theorem isRun_wordKind (word : List Char) : (wordKind word).isRun = true := by
  unfold wordKind
  split <;> rfl

theorem isRun_lexeme (c : Char) (rest : List Char) :
    (lexeme c rest).1.isRun = (c.isAlpha || c.isDigit) := by
  simp only [lexeme]
  cases c.isAlpha with
  | true => exact isRun_wordKind _
  | false =>
      cases c.isDigit with
      | true => rfl
      | false =>
          simp only [Bool.false_eq_true, if_false, Bool.or_self]
          split
          · next hsign =>
            unfold withEqualSign? at hsign
            split at hsign <;> cases hsign <;> rfl
          · unfold symbolKind
            split <;> rfl

theorem kind_lexeme_ne_eof (c : Char) (rest : List Char) : (lexeme c rest).1 ≠ .eof := by
  simp only [lexeme]
  split
  · intro h
    exact absurd ((isRun_wordKind _).symm.trans (congrArg Kind.isRun h)) (by decide)
  · split
    · nofun
    · split
      · next hsign =>
        unfold withEqualSign? at hsign
        split at hsign <;> cases hsign <;> nofun
      · unfold symbolKind
        split <;> nofun

/-! ## All tokens -/

namespace Scanner

theorem tokens_nil (offset : Nat) : tokens ⟨[], offset⟩ = [] := by
  rw [tokens]
  rfl

theorem tokens_blank {c : Char} (hc : isBlank c = true) (rest : List Char) (offset : Nat) :
    tokens ⟨c :: rest, offset⟩ = tokens ⟨rest, offset + c.utf8Size⟩ := by
  have hnext : next ⟨c :: rest, offset⟩ = next ⟨rest, offset + c.utf8Size⟩ := by
    simp only [next, List.takeWhile_cons, List.dropWhile_cons, hc, if_true, byteLength_cons,
      Nat.add_assoc]
  rw [tokens, hnext, ← tokens]

theorem tokens_cons {c : Char} (hc : isBlank c = false) (rest : List Char) (offset : Nat) :
    tokens ⟨c :: rest, offset⟩ =
      ⟨(lexeme c rest).1, String.ofList (c :: (lexeme c rest).2),
          ⟨offset, offset + byteLength (c :: (lexeme c rest).2)⟩⟩ ::
        tokens ⟨rest.drop (lexeme c rest).2.length,
          offset + byteLength (c :: (lexeme c rest).2)⟩ := by
  have hnext : next ⟨c :: rest, offset⟩ =
      (⟨(lexeme c rest).1, String.ofList (c :: (lexeme c rest).2),
          ⟨offset, offset + byteLength (c :: (lexeme c rest).2)⟩⟩,
        ⟨rest.drop (lexeme c rest).2.length,
          offset + byteLength (c :: (lexeme c rest).2)⟩) := by
    simp [next, hc, byteLength]
  rw [tokens, hnext, if_neg (kind_lexeme_ne_eof c rest)]

theorem tokens_append {a b : List Char} (h : Apart a b) (offset : Nat) :
    tokens ⟨a ++ b, offset⟩ = tokens ⟨a, offset⟩ ++ tokens ⟨b, offset + byteLength a⟩ := by
  match a with
  | [] => simp [tokens_nil, byteLength]
  | c :: a =>
      cases hc : isBlank c with
      | true =>
          have hrest : Apart a b := h.of_suffix (List.suffix_cons c a)
          rw [List.cons_append, tokens_blank hc, tokens_blank hc, tokens_append hrest,
            byteLength_cons, Nat.add_assoc]
      | false =>
          obtain ⟨behind, hbehind⟩ := lexeme_tail_prefix c a
          rw [List.cons_append, tokens_cons hc, tokens_cons hc, lexeme_append h]
          generalize lexeme c a = l at hbehind ⊢
          have hrest : Apart behind b :=
            h.of_suffix ⟨c :: l.2, by rw [List.cons_append, hbehind]⟩
          have hlt : behind.length < (c :: a).length := by
            rw [← hbehind, List.length_cons, List.length_append]; omega
          have hbytes : byteLength (c :: (l.2 ++ behind)) =
              byteLength (c :: l.2) + byteLength behind := byteLength_append (c :: l.2) behind
          rw [← hbehind, List.append_assoc, List.drop_left, List.drop_left, tokens_append hrest,
            hbytes, ← Nat.add_assoc]
          rfl
termination_by a.length
decreasing_by
  · exact hlt
  · exact Nat.lt_succ_self _

end Scanner

end ClosureLang
