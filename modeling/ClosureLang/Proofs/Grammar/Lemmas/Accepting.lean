import ClosureLang.Proofs.Grammar.Lemmas.Outcomes
import ClosureLang.Proofs.Grammar.Lemmas.Tables

/-!
# Statements, blocks and lists that are accepted

One lemma for each rule: where derivable tokens come next, the rule reads them, gives the tree of
the derivation and records no error. The rules are taken with any way to read the expressions inside
them for which the same is true.
-/

namespace ClosureLang.Parser

open Grammar

variable {α β : Type} {n : Nat} {s s' s'' : State} {descend : Precedence → Parser Expr}
  {tokens rest : List Token}

/-- Between `s` and `s'` nothing is recorded. -/
structure State.Silent (s s' : State) : Prop where
  finish : s'.finish = s.finish
  errors : s'.errors = s.errors

theorem State.Silent.trans (h : s.Silent s') (h' : s'.Silent s'') : s.Silent s'' :=
  ⟨h'.finish.trans h.finish, h'.errors.trans h.errors⟩

/-- The parser gives `a`, records nothing and stops at the token in front of `rest`. -/
def Gives (p : Parser α) (s : State) (a : α) (rest : List Token) : Prop :=
  ∃ s', p s = .ok a s' ∧ s.Silent s' ∧ s'.tokens.tail = rest

theorem Gives.pure {a : α} (h : s.tokens.tail = rest) : Gives (Pure.pure a) s a rest :=
  ⟨s, rfl, ⟨rfl, rfl⟩, h⟩

theorem Gives.bind {p : Parser α} {f : α → Parser β} {a : α} {b : β} {rest' : List Token}
    (hp : Gives p s a rest')
    (hf : ∀ s', s.Silent s' → s'.tokens.tail = rest' → Gives (f a) s' b rest) :
    Gives (p >>= f) s b rest := by
  obtain ⟨s₁, h₁, hs₁, ht₁⟩ := hp
  obtain ⟨s₂, h₂, hs₂, ht₂⟩ := hf s₁ hs₁ ht₁
  exact ⟨s₂, (bind_eq h₁).trans h₂, hs₁.trans hs₂, ht₂⟩

theorem Gives.current {f : Token → Parser α} {a : α} (h : Gives (f s.current) s a rest) :
    Gives (Parser.current >>= f) s a rest := h

theorem Gives.upcoming {f : Token → Parser α} {a : α} (h : Gives (f s.upcoming) s a rest) :
    Gives (Parser.upcoming >>= f) s a rest := h

theorem Gives.advance {f : Unit → Parser α} {a : α} (h : Gives (f ()) s.advance a rest) :
    Gives (Parser.advance >>= f) s a rest := by
  obtain ⟨s', hp, hs, ht⟩ := h
  exact ⟨s', hp, ⟨hs.finish, hs.errors⟩, ht⟩

theorem Gives.expect {f : Token → Parser α} {a : α} {t : Token} {wanted : Kind}
    {hint : Option Hint} (ht : s.tokens.tail = t :: tokens) (hk : t.kind = wanted)
    (h : Gives (f t) s.advance a rest) : Gives (Parser.expect wanted hint >>= f) s a rest := by
  have hu : s.upcoming = t := by simp [State.upcoming, ht]
  obtain ⟨s', hp, hs, hr⟩ := h
  refine ⟨s', ?_, ⟨hs.finish, hs.errors⟩, hr⟩
  rw [bind_eq (expect_eq (hu ▸ hk)), hu]
  exact hp

theorem Gives.within {p : Parser α} {a : α} {activity : Activity}
    (h : Gives p (s.note (.enter activity)) a rest) : Gives (within activity p) s a rest := by
  obtain ⟨s', hp, hs, hr⟩ := h
  refine ⟨s'.note (.leave activity), ?_, ⟨hs.finish, hs.errors⟩, hr⟩
  simp only [Parser.within, hp]

/-- How tightly a token binds to the expression in front of it. An `else` belongs to the condition
in front of it on every level. -/
def pullOf (kind : Kind) : Nat :=
  if kind = .elseWord then Level.primary.rank + 1 else (Precedence.ofKind kind).rank

/-- How tightly the tokens bind to what stands in front of them. -/
def pull (s : State) (rest : List Token) : Nat :=
  pullOf (rest.headD s.finish).kind

theorem pullOf_eq_zero_iff {kind : Kind} : pullOf kind = 0 ↔
    kind ≠ .elseWord ∧ (Precedence.ofKind kind).rank = 0 := by
  cases kind <;> decide

theorem rank_le_pullOf (kind : Kind) : (Precedence.ofKind kind).rank ≤ pullOf kind := by
  cases kind <;> decide

/-- Expressions of up to `n` tokens can be read below every limit that they and what follows allow.
-/
def Complete (n : Nat) (descend : Precedence → Parser Expr) : Prop :=
  ∀ {level : Level} {tokens : List Token} {expr : Expr}, Expression level tokens expr →
    tokens.length ≤ n → ∀ (limit : Precedence) (s : State) (rest : List Token),
      s.tokens = tokens ++ rest →
        (limit.rank < level.rank ∨ limit = .prefixed ∧ level = .prefixed) →
          pull s rest ≤ limit.rank → Gives (descend limit) s expr rest

theorem Complete.lowest {expr : Expr} (hd : Complete n descend)
    (h : Expression .equality tokens expr) (hn : tokens.length ≤ n) (ht : s.tokens = tokens ++ rest)
    (hp : pull s rest = 0) : Gives (descend .lowest) s expr rest :=
  hd h hn .lowest s rest ht (.inl (by decide)) (Nat.le_of_eq hp)

/-! ## Statements -/

/-- What is left behind a statement, which takes a semicolon with it. -/
def beyond (s : State) (rest : List Token) : List Token :=
  if (rest.headD s.finish).kind = .semicolon then rest.tail else rest

theorem gives_ending (hd : Complete n descend) {expr : Expr} (h : Expression .equality tokens expr)
    (hn : tokens.length ≤ n) (ht : s.tokens = tokens ++ rest) (hp : pull s rest = 0)
    (f : Expr → Stmt) :
    Gives (do let expr ← descend .lowest; optionalSemicolon; return f expr) s (f expr)
      (beyond s rest) := by
  refine Gives.bind (hd.lowest h hn ht hp) fun s₁ hs₁ ht₁ => ?_
  have hu : s₁.upcoming = rest.headD s.finish := by simp only [State.upcoming, ht₁, hs₁.finish]
  refine Gives.bind (a := ()) ?_ fun s₂ hs₂ ht₂ => .pure ht₂
  refine Gives.upcoming ?_
  rw [hu, beyond]
  split
  · exact ⟨s₁.advance, rfl, ⟨rfl, rfl⟩, by simp [ht₁]⟩
  · exact .pure ht₁

theorem gives_statement (hd : Complete n descend) {stmt : Stmt} (h : Statement tokens stmt)
    (hn : tokens.length ≤ n) (ht : s.tokens = tokens ++ rest) (hp : pull s rest = 0) :
    Gives (statement descend) s stmt (beyond s rest) := by
  refine Gives.current ?_
  cases h with
  | @letStmt word name sign tokens value hword hname hsign hv =>
      have hc : s.current = word := by simp [State.current, ht]
      rw [hc, hword]
      refine Gives.within (Gives.current ?_)
      rw [show (s.note (.enter .letStatement)).current = word from hc]
      refine Gives.expect (by rw [State.tokens_note, ht]; rfl) hname ?_
      refine Gives.expect (by rw [State.tokens_advance, State.tokens_note, ht]; rfl) hsign ?_
      refine Gives.advance ?_
      refine gives_ending hd hv (by simp only [List.length_cons] at hn; omega) ?_ ?_
        (.letStmt word (.ofToken name) ·)
      · rw [State.tokens_advance, State.tokens_advance, State.tokens_advance, State.tokens_note, ht]
        rfl
      · exact hp
  | @returnStmt word tokens value hword hv =>
      have hc : s.current = word := by simp [State.current, ht]
      rw [hc, hword]
      refine Gives.within (Gives.current (Gives.advance ?_))
      rw [show (s.note (.enter .returnStatement)).current = word from hc]
      refine gives_ending hd hv (by simp only [List.length_cons] at hn; omega) ?_ ?_
        (.returnStmt word ·)
      · rw [State.tokens_advance, State.tokens_note, ht]; rfl
      · exact hp
  | @exprStmt first tokens expr hv =>
      have hc : s.current = first := by simp [State.current, ht]
      obtain ⟨_, _, opening, heq, hk⟩ := hv.exists_opening
      obtain ⟨rfl, rfl⟩ := List.cons_eq_cons.mp heq
      have hexpr :
          Gives (expressionStatement descend) s (.exprStmt first expr) (beyond s rest) := by
        refine Gives.within (Gives.current ?_)
        rw [show (s.note (.enter .expressionStatement)).current = first from hc]
        exact gives_ending (s := s.note _) hd hv hn ht hp (.exprStmt first ·)
      rw [hc]
      cases hkind : first.kind <;> first | exact hexpr | simp [hkind, Opening.ofKind?] at hk

theorem addStatement_eq (hd : Complete n descend) {stmt : Stmt} (h : Statement tokens stmt)
    (hn : tokens.length ≤ n) (ht : s.tokens = tokens ++ rest) (hp : pull s rest = 0)
    (read : List Stmt) :
    ∃ s', addStatement descend read s = .ok (stmt :: read) s' ∧ s.Silent s' ∧
      s'.tokens = beyond s rest := by
  obtain ⟨s', hs', hsilent, ht'⟩ := gives_statement hd h hn ht hp
  refine ⟨s'.advance, ?_, ⟨hsilent.finish, hsilent.errors⟩, ht'⟩
  have ha : attempt (statement descend) s = .ok (some stmt) s' := by simp only [attempt, hs']
  exact bind_eq ha

theorem rounds_add {stops : Kind → Bool}
    (hstops : ∀ kind, stops kind = true → kind = .rightBrace ∨ kind = .eof) {stmt : Stmt}
    (h : Statement tokens stmt) (ht : s.tokens = tokens ++ rest) {left : List Token}
    (hl : tokens.length ≤ left.length) {read read' : List Stmt}
    (hone : addStatement descend read s = .ok read' s') :
    rounds (fun s => guard (¬ stops s.current.kind)) (fun _ => addStatement descend) left read s =
      rounds (fun s => guard (¬ stops s.current.kind)) (fun _ => addStatement descend) left.tail
        read' s' := by
  obtain ⟨first, more, rfl, hbrace, heof, _⟩ := h.exists_head
  have hpick : guard (¬ stops s.current.kind) = some () := by
    have hc : s.current = first := by simp [State.current, ht]
    exact guard_of fun hk => (hstops _ (hc ▸ hk)).elim hbrace heof
  cases left with
  | nil => simp at hl
  | cons t left =>
      exact Eq.trans (rounds_of_some hpick t left read) (bind_eq hone)

/-- Statements are read one after another, with whatever stands behind them. A statement at the end
that has no semicolon must have something behind it that does not continue it. -/
theorem rounds_past (hd : Complete n descend) {stops : Kind → Bool}
    (hstops : ∀ kind, stops kind = true → kind = .rightBrace ∨ kind = .eof)
    {tokens : List Token} {stmts : List Stmt} (h : Statements tokens stmts)
    (hn : tokens.length ≤ n) (left : List Token) (read : List Stmt) (s : State)
    (ht : s.tokens = tokens ++ rest) (hl : tokens.length ≤ left.length)
    (hend : ∀ front last stmt, tokens = front ++ last → Statement last stmt →
      pull s rest = 0 ∧ (rest.headD s.finish).kind ≠ .semicolon) :
    ∃ k ≤ tokens.length, ∃ s',
      rounds (fun s => guard (¬ stops s.current.kind)) (fun _ => addStatement descend) left read s =
        rounds (fun s => guard (¬ stops s.current.kind)) (fun _ => addStatement descend)
          (left.drop k) (stmts.reverse ++ read) s' ∧
      s.Silent s' ∧ s'.tokens = rest := by
  cases h with
  | nil => exact ⟨0, Nat.le_refl 0, s, rfl, ⟨rfl, rfl⟩, ht⟩
  | @ended tokens stmt semicolon more stmts hstmt hk hrest =>
      simp only [List.length_append, List.length_cons] at hn hl
      have ht : s.tokens = tokens ++ (semicolon :: more ++ rest) := by simp [ht]
      obtain ⟨s₁, hone, hs₁, ht₁⟩ := addStatement_eq hd hstmt (by omega) ht
        (by simp [pull, hk]; rfl) read
      obtain ⟨k, hle, s₂, hmore, hs₂, ht₂⟩ := rounds_past hd hstops hrest (by omega) left.tail
        (stmt :: read) s₁ (by simp [ht₁, beyond, hk]) (by simp; omega) (by
          intro front last stmt' hfront hlast
          rw [pull, hs₁.finish]
          exact hend (tokens ++ semicolon :: front) last stmt' (by simp [hfront]) hlast)
      refine ⟨k + 1, by simp; omega, s₂, ?_, hs₁.trans hs₂, ht₂⟩
      rw [rounds_add hstops hstmt ht (by omega) hone, hmore, List.drop_tail,
        List.reverse_cons, List.append_assoc, List.singleton_append]
  | @unended tokens stmt more stmts hstmt hnext hrest =>
      simp only [List.length_append] at hn hl
      have ht : s.tokens = tokens ++ (more ++ rest) := by simp [ht]
      have hbehind : pull s (more ++ rest) = 0 ∧
          ((more ++ rest).headD s.finish).kind ≠ .semicolon := by
        cases more with
        | nil => exact hend [] tokens stmt (by simp) hstmt
        | cons next more =>
            obtain ⟨hbinds, hsemi⟩ := runsOn_eq_false_iff.mp (hnext next rfl)
            exact ⟨pullOf_eq_zero_iff.mpr ⟨hrest.head_ne_else next rfl, hbinds⟩, hsemi⟩
      obtain ⟨s₁, hone, hs₁, ht₁⟩ := addStatement_eq hd hstmt (by omega) ht hbehind.1 read
      have hpos := List.length_pos_iff.mpr hstmt.ne_nil
      obtain ⟨k, hle, s₂, hmore, hs₂, ht₂⟩ := rounds_past hd hstops hrest (by omega) left.tail
        (stmt :: read) s₁ (by rw [ht₁, beyond, if_neg hbehind.2]) (by simp; omega) (by
          intro front last stmt' hfront hlast
          rw [pull, hs₁.finish]
          exact hend (tokens ++ front) last stmt' (by simp [hfront]) hlast)
      refine ⟨k + 1, by simp; omega, s₂, ?_, hs₁.trans hs₂, ht₂⟩
      rw [rounds_add hstops hstmt ht (by omega) hone, hmore, List.drop_tail,
        List.reverse_cons, List.append_assoc, List.singleton_append]

/-- The statements up to a stop, which may be any token that no statement runs over. -/
theorem rounds_statements (hd : Complete n descend) {stops : Kind → Bool}
    (hstops : ∀ kind, stops kind = true → kind = .rightBrace ∨ kind = .eof)
    {stmts : List Stmt} (h : Statements tokens stmts)
    (hn : tokens.length ≤ n) (left : List Token) (read : List Stmt) (s : State)
    (ht : s.tokens = tokens ++ rest) (hl : tokens.length ≤ left.length)
    (hr : stops (rest.headD s.finish).kind = true) :
    ∃ s', rounds (fun s => guard (¬ stops s.current.kind)) (fun _ => addStatement descend) left
      read s = .ok (stmts.reverse ++ read) s' ∧ s.Silent s' ∧ s'.tokens = rest := by
  have hstop : pull s rest = 0 ∧ (rest.headD s.finish).kind ≠ .semicolon := by
    rw [pull]
    rcases hstops _ hr with hk | hk <;> rw [hk] <;> decide
  obtain ⟨k, _, s', hrounds, hsilent, ht'⟩ :=
    rounds_past hd hstops h hn left read s ht hl fun _ _ _ _ _ => hstop
  have hcurrent : s'.current = rest.headD s.finish := by rw [State.current, ht', hsilent.finish]
  have hnone : guard (¬ stops s'.current.kind) = (none : Option Unit) := by
    rw [guard_eq_none_iff, Decidable.not_not, hcurrent]
    exact hr
  refine ⟨s', ?_, hsilent, ht'⟩
  rw [hrounds, rounds_of_none hnone]

theorem statements_eq (hd : Complete n descend) (stops : Kind → Bool)
    (hstops : ∀ kind, stops kind = true → kind = .rightBrace ∨ kind = .eof)
    {stmts : List Stmt} (h : Statements tokens stmts) (hn : tokens.length ≤ n)
    (ht : s.tokens = tokens ++ rest) (hr : stops (rest.headD s.finish).kind = true) :
    ∃ s', statements descend stops s = .ok stmts s' ∧ s.Silent s' ∧ s'.tokens = rest := by
  obtain ⟨s', hs', hsilent, ht'⟩ :=
    rounds_statements hd hstops h hn s.tokens [] s ht (by simp [ht]) hr
  rw [List.append_nil] at hs'
  have hloop : loop (fun s => guard (¬ stops s.current.kind)) (fun _ => addStatement descend) [] s =
      .ok stmts.reverse s' := hs'
  refine ⟨s', ?_, hsilent, ht'⟩
  rw [statements, bind_eq hloop, List.reverse_reverse]
  rfl

theorem gives_block (hd : Complete n descend) {body : Block} (h : Body tokens body)
    (hn : tokens.length ≤ n) (ht : s.tokens = tokens ++ rest) :
    Gives (block descend) s body rest := by
  cases h with
  | @braces opening closing tokens stmts hopen hstmts hclose =>
      have hc : s.current = opening := by simp [State.current, ht]
      simp only [List.length_cons, List.length_append] at hn
      refine Gives.within (Gives.current (Gives.advance ?_))
      rw [show (s.note (.enter .block)).current = opening from hc]
      have ht : (s.note (.enter .block)).advance.tokens = tokens ++ closing :: rest := by simp [ht]
      obtain ⟨s', hs', hsilent, ht'⟩ :=
        statements_eq hd (fun kind => kind = .rightBrace ∨ kind = .eof) (by simp) hstmts (by omega)
          ht (by simp [hclose])
      have hc' : s'.current = closing := by simp [State.current, ht']
      refine ⟨s', ?_, ⟨hsilent.finish, hsilent.errors⟩, by simp [ht']⟩
      rw [bind_eq hs', current_bind, hc', if_neg (by simp [hclose])]
      rfl

theorem Gives.expectBlock {f : Block → Parser β} {bs rest' : List Token} {body : Block} {b : β}
    (hd : Complete n descend) (hb : Body bs body) (hn : bs.length ≤ n)
    (ht : s.tokens.tail = bs ++ rest) (hint : Option Hint)
    (hf : ∀ s', s.Silent s' → s'.tokens.tail = rest → Gives (f body) s' b rest') :
    Gives (do let _ ← Parser.expect .leftBrace hint; f (← block descend)) s b rest' := by
  have hopen : ∃ opening more, bs = opening :: more ∧ opening.kind = .leftBrace := by
    cases hb with
    | braces hk _ _ => exact ⟨_, _, rfl, hk⟩
  obtain ⟨opening, more, rfl, hk⟩ := hopen
  refine Gives.expect ht hk (Gives.bind (gives_block hd hb hn ht) fun s' hs' ht' => ?_)
  exact hf s' ⟨hs'.finish, hs'.errors⟩ ht'

/-! ## Lists with commas -/

section

variable {Item : List Token → α → Prop} {item : Parser α}

/-- Items that all have a comma in front of them. -/
inductive Commas (Item : List Token → α → Prop) : List Token → List α → Prop
  | nil : Commas Item [] []
  | cons {comma tokens a rest others} :
      comma.kind = .comma → Item tokens a → Commas Item rest others →
      Commas Item (comma :: (tokens ++ rest)) (a :: others)

/-- Items of up to `n` tokens are read in front of anything that does not bind to them. -/
def CompleteItem (n : Nat) (Item : List Token → α → Prop) (item : Parser α) : Prop :=
  ∀ {tokens : List Token} {a : α}, Item tokens a → tokens.length ≤ n →
    ∀ (s : State) (rest : List Token), s.tokens.tail = tokens ++ rest → pull s rest = 0 →
      Gives item s a rest

theorem rounds_items (hi : CompleteItem n Item item) {tokens : List Token} {others : List α}
    (h : Commas Item tokens others) (hn : tokens.length ≤ n) (left : List Token) (read : List α)
    (s : State) (ht : s.tokens.tail = tokens ++ rest) (hl : tokens.length ≤ left.length)
    (hr : (rest.headD s.finish).kind = .rightParen) :
    Gives (rounds (fun s => guard (s.upcoming.kind = .comma)) (fun _ => addItem item) left read) s
      (others.reverse ++ read) rest := by
  have hu : s.upcoming = (tokens ++ rest).headD s.finish := by rw [State.upcoming, ht]
  cases h with
  | nil =>
      have hk : s.upcoming.kind = .rightParen := hu ▸ hr
      exact ⟨s, rounds_of_none (guard_eq_none_iff.mpr (by simp [hk])) left read, ⟨rfl, rfl⟩, ht⟩
  | @cons comma tokens a more others hk ha hmore =>
      simp only [List.length_cons, List.length_append] at hn hl
      have hpull : pull s (more ++ rest) = 0 := by
        cases hmore with
        | nil => simp only [pull, List.nil_append, hr]; rfl
        | cons hk _ _ => simp only [pull, List.cons_append, List.headD_cons, hk]; rfl
      cases left with
      | nil => simp at hl
      | cons t left =>
          have hpick : guard (s.upcoming.kind = .comma) = some () := guard_of (hu ▸ hk)
          have hround : Gives (addItem item read) s (a :: read) (more ++ rest) :=
            Gives.advance (Gives.bind (hi ha (by omega) s.advance (more ++ rest)
              (by rw [State.tokens_advance, ht]; simp) hpull) fun s' _ h => .pure h)
          rw [List.length_cons] at hl
          have hrest : Gives (addItem item read >>=
              rounds (fun s => guard (s.upcoming.kind = .comma)) (fun _ => addItem item) left) s
              ((a :: others).reverse ++ read) rest := by
            refine Gives.bind hround fun s' hs' ht' => ?_
            rw [List.reverse_cons, List.append_assoc, List.singleton_append]
            exact rounds_items hi hmore (by omega) left _ s' ht' (by omega) (by rwa [hs'.finish])
          obtain ⟨s', hs', hsilent, ht'⟩ := hrest
          exact ⟨s', (rounds_of_some hpick t left read).trans hs', hsilent, ht'⟩

theorem gives_closedItems (hi : CompleteItem n Item item) {a : α} {others : List α}
    {us : List Token} (ha : Item tokens a) (h : Commas Item us others)
    (hn : tokens.length + us.length ≤ n) {closing : Token} (hk : closing.kind = .rightParen)
    (hint : Option Hint) (ht : s.tokens.tail = tokens ++ us ++ closing :: rest) :
    Gives (do let all ← items item (← item); let _ ← expect .rightParen hint; return all) s
      (a :: others) rest := by
  have hpull : pull s (us ++ closing :: rest) = 0 := by
    cases h with
    | nil => simp only [pull, List.nil_append, List.headD_cons, hk]; rfl
    | cons hk _ _ => simp only [pull, List.cons_append, List.headD_cons, hk]; rfl
  refine Gives.bind (hi ha (by omega) s _ (by simpa using ht) hpull) fun s₁ _ ht₁ => ?_
  have hitems : Gives (items item a) s₁ (a :: others) (closing :: rest) := by
    refine Gives.bind (rounds_items hi h (by omega) s₁.tokens [a] s₁ ht₁ ?_ hk) fun s₂ _ ht₂ => ?_
    · have := congrArg List.length ht₁
      simp only [List.length_tail, List.length_append] at this
      omega
    · simpa using Gives.pure ht₂
  exact Gives.bind hitems fun s₂ _ ht₂ => Gives.expect ht₂ hk (Gives.pure (by simp [ht₂]))

end

theorem commas_of_moreParameters {names : List Identifier} (h : MoreParameters tokens names) :
    Commas (fun ts p => ∃ t, ts = [t] ∧ t.kind = .identifier ∧ p = .ofToken t) tokens names := by
  induction h with
  | nil => exact .nil
  | cons hk ht _ ih => exact .cons hk ⟨_, rfl, ht, rfl⟩ ih

theorem commas_of_moreArguments {tokens : List Token} {args : List Expr}
    (h : MoreArguments tokens args) : Commas (Expression .equality) tokens args := by
  match h with
  | .nil => exact .nil
  | .cons hk ha hmore => exact .cons hk ha (commas_of_moreArguments hmore)

theorem gives_parameters {names : List Identifier} (h : Parameters tokens names)
    {closing : Token} (hk : closing.kind = .rightParen)
    (ht : s.tokens.tail = tokens ++ closing :: rest) : Gives parameters s names rest := by
  refine Gives.upcoming ?_
  cases h with
  | nil =>
      rw [if_pos (by simpa [State.upcoming, ht] using hk)]
      exact Gives.advance (.pure (by simp [ht]))
  | @cons name tokens names hname hmore =>
      rw [if_neg (by simp [State.upcoming, ht, hname])]
      have hitem : CompleteItem (tokens.length + 1)
          (fun ts p => ∃ t, ts = [t] ∧ t.kind = .identifier ∧ p = Identifier.ofToken t)
          (Identifier.ofToken <$> expect .identifier none) := by
        rintro _ _ ⟨t, rfl, ht, rfl⟩ _ s rest hs _
        rw [map_eq_pure_bind]
        exact Gives.expect hs ht (.pure (by simp [hs]))
      exact gives_closedItems hitem ⟨name, rfl, hname, rfl⟩ (commas_of_moreParameters hmore)
        (by simp; omega) hk none (by simpa using ht)

theorem gives_arguments (hd : Complete n descend) {args : List Expr} (h : Arguments tokens args)
    (hn : tokens.length ≤ n) {closing : Token} (hk : closing.kind = .rightParen)
    (ht : s.tokens.tail = tokens ++ closing :: rest) : Gives (arguments descend) s args rest := by
  refine Gives.upcoming ?_
  cases h with
  | nil =>
      rw [if_pos (by simpa [State.upcoming, ht] using hk)]
      exact Gives.advance (.pure (by simp [ht]))
  | @cons tokens arg more args harg hmore =>
      obtain ⟨first, others, opening, rfl, hopening⟩ := harg.exists_opening
      have hne : s.upcoming.kind ≠ .rightParen := by
        intro hparen
        rw [show s.upcoming = first by simp [State.upcoming, ht]] at hparen
        simp [hparen, Opening.ofKind?] at hopening
      rw [if_neg hne]
      have hitem : CompleteItem n (Expression .equality) (do advance; descend .lowest) :=
        fun harg hn s rest hs hp => Gives.advance (hd.lowest harg hn hs hp)
      rw [List.length_append] at hn
      exact gives_closedItems hitem harg (commas_of_moreArguments hmore) hn hk _ ht

end ClosureLang.Parser
