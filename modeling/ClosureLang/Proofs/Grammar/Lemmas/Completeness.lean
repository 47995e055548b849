import ClosureLang.Proofs.Grammar.Lemmas.Accepting

/-!
# Everything the grammar derives is parsed

Operators of a level associate to the left: the derivation of the left part is followed first, and
the loop goes on from there with the rest of the tokens.
-/

namespace ClosureLang.Parser

open Grammar

variable {n : Nat} {limit : Precedence} {s s' : State} {descend : Precedence → Parser Expr}
  {level : Level} {tokens rest : List Token} {expr : Expr}

/-! ## The beginning of an expression -/

theorem gives_prefixed (hd : Complete n descend) {sign : Token} {op : PrefixOp}
    (hop : PrefixOp.ofKind? sign.kind = some op) (h : Expression .prefixed tokens expr)
    (hn : tokens.length ≤ n) (ht : s.tokens = sign :: (tokens ++ rest))
    (hp : pull s rest ≤ Level.prefixed.rank) :
    Gives (prefixed descend) s (.prefixed sign op expr) rest := by
  have hc : s.current = sign := by simp [State.current, ht]
  refine Gives.within (Gives.current ?_)
  rw [show (s.note (.enter .prefixed)).current = sign from hc, hop]
  refine Gives.advance (Gives.bind (hd h hn .prefixed _ rest ?_ (.inr ⟨rfl, rfl⟩) hp) ?_)
  · simp [ht]
  · exact fun s' _ h => .pure h

theorem Gives.expectGrouped {β : Type} {f : Expr → Parser β} {b : β} {opening closing : Token}
    {rest' : List Token} (hd : Complete n descend) (hopen : opening.kind = .leftParen)
    (h : Expression .equality tokens expr) (hn : tokens.length ≤ n)
    (hclose : closing.kind = .rightParen) (hint hint' : Option Hint)
    (ht : s.tokens.tail = opening :: (tokens ++ closing :: rest))
    (hf : ∀ s', s.Silent s' → s'.tokens.tail = rest → Gives (f expr) s' b rest') :
    Gives (do
      let _ ← Parser.expect .leftParen hint
      Parser.advance
      let expr ← descend .lowest
      let _ ← Parser.expect .rightParen hint'
      f expr) s b rest' := by
  refine Gives.expect ht hopen (Gives.advance ?_)
  have hp : pull s (closing :: rest) = 0 := by simp [pull, hclose]; rfl
  refine Gives.bind (hd.lowest h hn (by simp [ht]) hp) fun s' hs' ht' => ?_
  exact Gives.expect ht' hclose (hf _ ⟨hs'.finish, hs'.errors⟩ (by simp [ht']))

theorem gives_conditional (hd : Complete n descend) {word opening closing : Token}
    {cs bs : List Token} {condition : Expr} {consequence : Block}
    (hopen : opening.kind = .leftParen) (hc : Expression .equality cs condition)
    (hclose : closing.kind = .rightParen) (hb : Body bs consequence)
    (hn : cs.length + bs.length ≤ n)
    (ht : s.tokens = word :: opening :: (cs ++ closing :: (bs ++ rest)))
    (hr : (rest.headD s.finish).kind ≠ .elseWord) :
    Gives (conditional descend) s (.conditional word condition consequence none) rest := by
  have hcurrent : s.current = word := by simp [State.current, ht]
  refine Gives.within (Gives.current ?_)
  rw [show (s.note (.enter .conditional)).current = word from hcurrent]
  refine Gives.expectGrouped hd hopen hc (by omega) hclose _ _ (by rw [State.tokens_note, ht]; rfl)
    fun s₁ hs₁ ht₁ => ?_
  refine Gives.expectBlock hd hb (by omega) ht₁ _ fun s₂ hs₂ ht₂ => Gives.upcoming ?_
  have hu : s₂.upcoming = rest.headD s.finish := by
    rw [State.upcoming, ht₂, hs₂.finish, hs₁.finish]; rfl
  rw [hu, if_neg hr]
  exact .pure ht₂

theorem gives_alternative (hd : Complete n descend) {word opening closing other : Token}
    {cs bs as : List Token} {condition : Expr} {consequence alternative : Block}
    (hopen : opening.kind = .leftParen) (hc : Expression .equality cs condition)
    (hclose : closing.kind = .rightParen) (hb : Body bs consequence)
    (hother : other.kind = .elseWord) (ha : Body as alternative)
    (hn : cs.length + bs.length + as.length ≤ n)
    (ht : s.tokens = word :: opening :: (cs ++ closing :: (bs ++ other :: (as ++ rest)))) :
    Gives (conditional descend) s (.conditional word condition consequence (some alternative))
      rest := by
  have hcurrent : s.current = word := by simp [State.current, ht]
  refine Gives.within (Gives.current ?_)
  rw [show (s.note (.enter .conditional)).current = word from hcurrent]
  refine Gives.expectGrouped hd hopen hc (by omega) hclose _ _ (by rw [State.tokens_note, ht]; rfl)
    fun s₁ hs₁ ht₁ => ?_
  refine Gives.expectBlock hd hb (by omega) ht₁ _ fun s₂ hs₂ ht₂ => Gives.upcoming ?_
  rw [if_pos (by simpa [State.upcoming, ht₂] using hother)]
  refine Gives.advance (Gives.expectBlock hd ha (by omega)
    (by rw [State.tokens_advance, ht₂]; rfl) _ ?_)
  exact fun s₃ _ ht₃ => .pure ht₃

theorem gives_function (hd : Complete n descend) {word opening closing : Token}
    {ps bs : List Token} {names : List Identifier} {body : Block}
    (hopen : opening.kind = .leftParen) (hp : Parameters ps names)
    (hclose : closing.kind = .rightParen) (hb : Body bs body) (hn : bs.length ≤ n)
    (ht : s.tokens = word :: opening :: (ps ++ closing :: (bs ++ rest))) :
    Gives (function descend) s (.function word names body) rest := by
  have hcurrent : s.current = word := by simp [State.current, ht]
  refine Gives.within (Gives.current ?_)
  rw [show (s.note (.enter .function)).current = word from hcurrent]
  refine Gives.expect (by rw [State.tokens_note, ht]; rfl) hopen ?_
  refine Gives.bind (gives_parameters hp hclose
    (by rw [State.tokens_advance, State.tokens_note, ht]; rfl)) fun s₁ _ ht₁ => ?_
  exact Gives.expectBlock hd hb hn ht₁ _ fun s₂ _ ht₂ => .pure ht₂

theorem gives_grouped (hd : Complete n descend) {opening closing : Token}
    (h : Expression .equality tokens expr) (hn : tokens.length ≤ n)
    (hclose : closing.kind = .rightParen)
    (ht : s.tokens = opening :: (tokens ++ closing :: rest)) :
    Gives (grouped descend) s expr rest := by
  have hp : pull s (closing :: rest) = 0 := by simp [pull, hclose]; rfl
  refine Gives.advance (Gives.bind (hd.lowest h hn (by simp [ht]) hp) fun s' _ ht' => ?_)
  exact Gives.expect ht' hclose (.pure (by simp [ht']))

/-! ## The rest of an expression -/

/-- What an expression is read with, inside its rule of the trace. -/
def inside (descend : Precedence → Parser Expr) (limit : Precedence) (first : Token) :
    Parser Expr :=
  match Opening.ofKind? first.kind with
  | none => reject ⟨first, .cannotStart⟩
  | some opening => do
    let left ← opening.rule descend
    loop (continuation? limit) (extend descend) left

/-- After some rounds the loop has come to `expr`, in front of `rest`, and more rounds are left than
tokens. -/
def Arrives (limit : Precedence) (descend : Precedence → Parser Expr) (s : State) (expr : Expr)
    (rest : List Token) : Prop :=
  ∃ left s', inside descend limit s.current s =
      rounds (continuation? limit) (extend descend) left expr s' ∧
    s.Silent s' ∧ s'.tokens.tail = rest ∧ s'.tokens.length ≤ left.length

theorem arrives_opening (opening : Opening) (ho : Opening.ofKind? s.current.kind = some opening)
    (h : Gives (opening.rule descend) s expr rest) : Arrives limit descend s expr rest := by
  obtain ⟨s', hs', hsilent, ht⟩ := h
  refine ⟨s'.tokens, s', ?_, hsilent, ht, Nat.le_refl _⟩
  rw [inside, ho]
  exact bind_eq hs'

theorem Arrives.extend {left : Expr} {next : Token} (continuation : Continuation)
    (h : Arrives limit descend s left (next :: (tokens ++ rest)))
    (hlimit : limit.rank < (Precedence.ofKind next.kind).rank)
    (hc : Continuation.ofKind? next.kind = some continuation)
    (hg : ∀ s', s.Silent s' → s'.tokens = next :: (tokens ++ rest) →
      Gives (continuation.rule descend left) s' expr rest) :
    Arrives limit descend s expr rest := by
  obtain ⟨left', s₁, heq, hs₁, ht₁, hl₁⟩ := h
  obtain ⟨s₂, heq₂, hs₂, ht₂⟩ := hg s₁.advance ⟨hs₁.finish, hs₁.errors⟩ ht₁
  have hpick : continuation? limit s₁ = some continuation := by
    have hu : s₁.upcoming = next := by simp [State.upcoming, ht₁]
    have hsemi : next.kind ≠ .semicolon := fun hk => by simp [hk, Continuation.ofKind?] at hc
    rw [continuation?, hu, if_pos ⟨hsemi, hlimit⟩, hc]
  have hlen := congrArg List.length ht₁
  have hlen₂ := congrArg List.length ht₂
  simp only [List.length_tail, List.length_cons, List.length_append] at hlen hlen₂
  cases left' with
  | nil => rw [List.length_nil] at hl₁; omega
  | cons t left' =>
      rw [List.length_cons] at hl₁
      refine ⟨left', s₂, ?_, hs₁.trans ⟨hs₂.finish, hs₂.errors⟩, ht₂, by omega⟩
      rw [heq, rounds_of_some hpick]
      exact bind_eq heq₂

theorem gives_infixed (hd : Complete n descend) {sign : Token} {op : InfixOp} {inner : Level}
    {left right : Expr} (hsign : level.operator? sign.kind = some op)
    (hinner : level.rank < inner.rank) (h : Expression inner tokens right) (hn : tokens.length ≤ n)
    (ht : s.tokens = sign :: (tokens ++ rest)) (hp : pull s rest ≤ level.rank) :
    Gives (infixed descend left) s (.infixed sign left op right) rest := by
  have hcurrent : s.current = sign := by simp [State.current, ht]
  obtain ⟨hop, hrank, _, _⟩ := Level.ofKind?_of_operator? hsign
  refine Gives.within (Gives.current ?_)
  rw [show (s.note (.enter .infixed)).current = sign from hcurrent, hop]
  refine Gives.advance (Gives.bind (hd h hn _ _ rest ?_ (.inl ?_) ?_) fun s' _ ht' => .pure ht')
  · rw [State.tokens_advance, State.tokens_note, ht]; rfl
  · rwa [hrank]
  · rw [hrank]; exact hp

theorem gives_call (hd : Complete n descend) {opening closing : Token} {as : List Token}
    {callee : Expr} {args : List Expr} (has : Arguments as args) (hn : as.length ≤ n)
    (hclose : closing.kind = .rightParen)
    (ht : s.tokens = opening :: (as ++ closing :: rest)) :
    Gives (call descend callee) s (.call opening callee args) rest := by
  have hcurrent : s.current = opening := by simp [State.current, ht]
  refine Gives.within (Gives.current ?_)
  rw [show (s.note (.enter .call)).current = opening from hcurrent]
  refine Gives.bind (gives_arguments hd has hn hclose ?_) fun s' _ ht' => .pure ht'
  rw [State.tokens_note, ht]; rfl

theorem opening_of_current {t : Token} {ts : List Token} {opening : Opening}
    (ht : s.tokens = t :: ts) (ho : Opening.ofKind? t.kind = some opening) :
    Opening.ofKind? s.current.kind = some opening := by
  have hcurrent : s.current = t := by rw [State.current, ht]; rfl
  rw [hcurrent, ho]

/-- The expressions of a level, along the left parts of the derivation. -/
theorem arrives (hd : Complete n descend) {level : Level} {tokens : List Token} {expr : Expr}
    (h : Expression level tokens expr) (hn : tokens.length ≤ n + 1) (rest : List Token)
    (ht : s.tokens = tokens ++ rest)
    (hlimit : limit.rank < level.rank ∨ limit = .prefixed ∧ level = .prefixed)
    (hp : pull s rest ≤ level.rank) : Arrives limit descend s expr rest := by
  match h with
  | @Expression.tighter _ inner _ _ hlt h =>
      refine arrives hd h hn rest ht (.inl ?_) (Nat.le_trans hp (Nat.le_of_lt hlt))
      rcases hlimit with hlimit | ⟨rfl, rfl⟩
      · exact Nat.lt_trans hlimit hlt
      · exact hlt
  | @Expression.infixed _ _ sign _ ls _ rs _ hsign hlt hl hr =>
      obtain ⟨_, hrank, hc, hbinary⟩ := Level.ofKind?_of_operator? hsign
      have hlimit' : limit.rank < level.rank := by
        rcases hlimit with hlimit | ⟨_, rfl⟩
        · exact hlimit
        · exact absurd hbinary (Nat.lt_irrefl _)
      have hpos := List.length_pos_iff.mpr hl.ne_nil
      simp only [List.length_append, List.length_cons] at hn
      have hpull : pull s (sign :: (rs ++ rest)) ≤ level.rank := by
        have helse : sign.kind ≠ .elseWord := fun hk => by simp [hk, Continuation.ofKind?] at hc
        simp only [pull, List.headD_cons, pullOf, if_neg helse, hrank, Nat.le_refl]
      refine (arrives hd hl (by omega) (sign :: (rs ++ rest)) (by simp [ht]) (.inl hlimit')
        hpull).extend .infixed (hrank ▸ hlimit') hc fun s' hs' ht' => ?_
      refine gives_infixed hd hsign hlt hr (by omega) ht' ?_
      rwa [pull, hs'.finish]
  | @Expression.call opening closing cs _ as _ hcallee hopen has hclose =>
      have hlimit' : limit.rank < Level.call.rank := by
        rcases hlimit with hlimit | ⟨_, h⟩
        · exact hlimit
        · cases h
      have hpos := List.length_pos_iff.mpr hcallee.ne_nil
      simp only [List.length_append, List.length_cons] at hn
      have hpull : pull s (opening :: (as ++ [closing] ++ rest)) ≤ Level.call.rank := by
        simp only [pull, List.headD_cons, hopen]; decide
      refine (arrives hd hcallee (by omega) (opening :: (as ++ [closing] ++ rest)) (by simp [ht])
        (.inl hlimit') hpull).extend .call (by rw [hopen]; exact hlimit') (by rw [hopen]; rfl)
          fun s' _ ht' => ?_
      exact gives_call hd has (by omega) hclose (by simpa using ht')
  | .not hk h | .negate hk h =>
      rw [List.length_cons] at hn
      refine arrives_opening .prefixed (opening_of_current ht (by rw [hk]; rfl)) ?_
      exact gives_prefixed hd (by rw [hk]; rfl) h (Nat.le_of_succ_le_succ hn) ht hp
  | @Expression.identifier name hk =>
      have hc : s.current = name := by simp [State.current, ht]
      refine arrives_opening .identifier (opening_of_current ht (by rw [hk]; rfl)) ?_
      exact Gives.current (hc ▸ .pure (by simp [ht]))
  | @Expression.integer token _ hk hv =>
      have hc : s.current = token := by simp [State.current, ht]
      refine arrives_opening .integer (opening_of_current ht (by rw [hk]; rfl)) (Gives.current ?_)
      rw [hc, show Integer.ofDigits? token.literal = _ from Integer.ofInt?_eq_some_iff.mpr hv]
      exact .pure (by simp [ht])
  | @Expression.true token hk | @Expression.false token hk =>
      have hc : s.current = token := by simp [State.current, ht]
      refine arrives_opening .boolean (opening_of_current ht (by rw [hk]; rfl)) (Gives.current ?_)
      rw [hc, hk]
      exact .pure (by simp [ht])
  | .grouped hopen h hclose =>
      simp only [List.length_append, List.length_cons] at hn
      refine arrives_opening .grouped (opening_of_current ht (by rw [hopen]; rfl)) ?_
      exact gives_grouped hd h (by omega) hclose (by simpa using ht)
  | .conditional hk hopen hc hclose hb =>
      simp only [List.length_append, List.length_cons] at hn
      refine arrives_opening .conditional (opening_of_current ht (by rw [hk]; rfl)) ?_
      refine gives_conditional hd hopen hc hclose hb (by omega) (by simpa using ht) fun hother => ?_
      rw [pull, hother] at hp
      exact absurd hp (by decide)
  | .alternative hk hopen hc hclose hb hother ha =>
      simp only [List.length_append, List.length_cons] at hn
      refine arrives_opening .conditional (opening_of_current ht (by rw [hk]; rfl)) ?_
      exact gives_alternative hd hopen hc hclose hb hother ha (by omega) (by simpa using ht)
  | .function hk hopen hp hclose hb =>
      simp only [List.length_append, List.length_cons] at hn
      refine arrives_opening .function (opening_of_current ht (by rw [hk]; rfl)) ?_
      exact gives_function hd hopen hp hclose hb (by omega) (by simpa using ht)
-- A left part has fewer tokens. An expression of a tighter level has the same ones.
termination_by (tokens.length, Level.primary.rank - level.rank)
decreasing_by
  · have hinner : inner.rank ≤ Level.primary.rank := by cases inner <;> decide
    exact .right _ (by omega)
  · exact .left _ _ (by simp)
  · exact .left _ _ (by simp)

theorem gives_expressionStep (hd : Complete n descend) (h : Expression level tokens expr)
    (hn : tokens.length ≤ n + 1) (ht : s.tokens = tokens ++ rest)
    (hlimit : limit.rank < level.rank ∨ limit = .prefixed ∧ level = .prefixed)
    (hp : pull s rest ≤ limit.rank) : Gives (expressionStep descend limit) s expr rest := by
  refine Gives.current (Gives.within ?_)
  have hp' : pull s rest ≤ level.rank := by
    rcases hlimit with hlimit | ⟨rfl, rfl⟩
    · omega
    · exact hp
  -- What comes next does not bind tighter than the limit, so that the loop stops here.
  obtain ⟨left, s', heq, hs', ht', _⟩ :=
    arrives (s := s.note (.enter (.expression limit s.current))) hd h hn rest ht hlimit hp'
  refine ⟨s', heq.trans (rounds_of_none (if_neg fun hgo => ?_) _ _), hs', ht'⟩
  have hu : s'.upcoming = rest.headD s.finish := by rw [State.upcoming, ht', hs'.finish]; rfl
  have hgo := Precedence.lt_iff_rank_lt.mp hgo.2
  rw [hu] at hgo
  exact Nat.not_le_of_lt hgo (Nat.le_trans (rank_le_pullOf _) hp)

/-- The parser for expressions reads all expressions that are no longer than its depth. -/
theorem complete_expression : (n : Nat) → Complete n (expression n)
  | 0 => fun h hn => absurd (List.length_eq_zero_iff.mp (Nat.le_zero.mp hn)) h.ne_nil
  | n + 1 => fun h hn _ _ _ ht hlimit hp =>
      gives_expressionStep (complete_expression n) h hn ht hlimit hp

theorem program_of_statements {stmts : List Stmt} {s' : State}
    (h : statements (expression n) (fun kind => kind = .eof) (s.note (.enter .program)) =
      .ok stmts s') : program n s = .ok ⟨stmts⟩ (s'.note (.leave .program)) := by
  simp only [program, within, bind_eq h]
  rfl

theorem program_eq (hf : s.finish.kind = .eof) {whole : Program} (h : Derives s.tokens whole)
    (hn : s.tokens.length ≤ n) : ∃ s', program n s = .ok whole s' ∧ s'.errors = s.errors := by
  have ht : (s.note (.enter .program)).tokens = s.tokens ++ [] := by simp
  obtain ⟨s', hs', hsilent, _⟩ := statements_eq (complete_expression n) (fun kind => kind = .eof)
    (by simp) h hn ht (by simpa using hf)
  exact ⟨s'.note (.leave .program), program_of_statements hs', hsilent.errors⟩

end ClosureLang.Parser
