import ClosureLang.Proofs.Grammar.Lemmas.Tables
import ClosureLang.Proofs.Grammar.Lemmas.Outcomes

/-!
# Statements, blocks and lists that are read

One lemma for each rule: a run without errors has passed over tokens that the grammar derives, and
its result is the tree of the derivation. The rules are taken with any way to read the expressions
inside them for which the same is true.
-/

namespace ClosureLang.Parser

open Grammar

variable {α : Type} {n : Nat} {s s' s'' : State} {descend : Precedence → Parser Expr}

/-! ## Results that the grammar derives -/

/-- Unless there are errors, the tokens passed over derive the result. -/
def Derived (D : List Token → α → Prop) (s : State) (a : α) (s' : State) : Prop :=
  s'.errors = s.errors → ∃ tokens, D tokens a ∧ s.Reads tokens s'

/-- A closing parenthesis stands behind the tokens. -/
def Closed (D : List Token → α → Prop) (tokens : List Token) (a : α) : Prop :=
  ∃ inner closing, tokens = inner ++ [closing] ∧ D inner a ∧ closing.kind = .rightParen

/-- Unless there are errors, `expr` is derived from the tokens passed over, and what comes next does
not bind tighter than `limit`. An operator in front of an expression is read below every limit. -/
def ReadsExpression (limit : Precedence) (s : State) (expr : Expr) (s' : State) : Prop :=
  s'.errors = s.errors → ∃ (level : Level) (tokens : List Token),
    (limit.rank < level.rank ∨ level = .prefixed) ∧ Expression level tokens expr ∧
      s.Reads tokens s' ∧ (Precedence.ofKind s'.upcoming.kind).rank ≤ limit.rank

/-- Unless there are errors, the tokens passed over derive a statement, with or without a semicolon.
-/
def ReadsStatement (s : State) (stmt : Stmt) (s' : State) : Prop :=
  s'.errors = s.errors → ∃ tokens, Statement tokens stmt ∧
    (s.Reads tokens s' ∧ runsOn s'.upcoming.kind = false ∨
      ∃ semicolon, semicolon.kind = .semicolon ∧ s.Reads (tokens ++ [semicolon]) s')

/-- Expressions can be read wherever fewer than `n` tokens are left. -/
def Sound (n : Nat) (descend : Precedence → Parser Expr) : Prop :=
  ∀ (limit : Precedence) (s : State), s.Below n →
    Outcome s (ReadsExpression limit s) (descend limit s)

/-- Below the lowest limit every expression can be read, and nothing that binds comes next. -/
theorem ReadsExpression.lowest {expr : Expr} (h : ReadsExpression .lowest s expr s')
    (he : s'.errors = s.errors) : ∃ tokens, Expression .equality tokens expr ∧
      s.Reads tokens s' ∧ (Precedence.ofKind s'.upcoming.kind).rank = 0 := by
  obtain ⟨level, tokens, _, hd, hr, hu⟩ := h he
  exact ⟨tokens, hd.loosest, hr, Nat.le_zero.mp hu⟩

/-! ## Statements -/

theorem outcome_optionalSemicolon (hs : s.Ends) :
    Outcome s (fun _ s' => s' = s ∧ s.upcoming.kind ≠ .semicolon ∨
        s' = s.advance ∧ s.advance.current.kind = .semicolon ∧
          s.advance.Reads [s.advance.current] s.advance)
      (optionalSemicolon s) := by
  simp only [optionalSemicolon, upcoming_bind]
  split
  · rename_i hk
    refine .ok s.advance_leads (.inr ⟨rfl, hk, ?_⟩)
    exact (s.advance_leads.ends hs).reads_current (hk ▸ by decide)
  · rename_i hk
    exact .pure (.inl ⟨rfl, hk⟩)

theorem outcome_ending (hd : Sound n descend) (hs : s.Below n) (f : Expr → Stmt) :
    Outcome s (fun stmt s' => s'.errors = s.errors →
        ∃ expr tokens, stmt = f expr ∧ Expression .equality tokens expr ∧
          (s.Reads tokens s' ∧ runsOn s'.upcoming.kind = false ∨
            ∃ semicolon, semicolon.kind = .semicolon ∧ s.Reads (tokens ++ [semicolon]) s'))
      ((do let expr ← descend .lowest; optionalSemicolon; return f expr : Parser Stmt) s) := by
  refine Outcome.bind (hd .lowest s hs) fun expr s₁ hl hexpr => ?_
  refine Outcome.bind (outcome_optionalSemicolon (hl.ends hs.toEnds)) fun _ s₂ _ h => ?_
  refine .pure fun he => ?_
  rcases h with ⟨rfl, hk⟩ | ⟨rfl, hk, hr⟩
  · obtain ⟨tokens, hd, hr, hu⟩ := hexpr.lowest he
    exact ⟨expr, tokens, rfl, hd, .inl ⟨hr, runsOn_eq_false_iff.mpr ⟨hu, hk⟩⟩⟩
  · obtain ⟨tokens, hd, hr', _⟩ := hexpr.lowest he
    exact ⟨expr, tokens, rfl, hd, .inr ⟨_, hk, hr'.trans hr⟩⟩

theorem outcome_letStatement (hd : Sound n descend) (hs : s.Below n)
    (hk : s.current.kind = .letWord) :
    Outcome s (ReadsStatement s) (letStatement descend s) := by
  refine outcome_within (C := fun t => t.kind = .letWord) hs hk (fun _ _ _ _ _ h => h) ?_
  intro s hs hk
  rw [current_bind]
  refine Outcome.bind (outcome_expect hs.toEnds (by decide)) fun name s₁ hl₁ h₁ => ?_
  refine Outcome.bind (outcome_expect (hl₁.ends hs.toEnds) (by decide)) fun sign s₂ hl₂ h₂ => ?_
  obtain ⟨hname, rfl, hr₁⟩ := h₁
  obtain ⟨hsign, rfl, hr₂⟩ := h₂
  refine Outcome.advance_bind ?_
  have hl := (hl₁.trans hl₂).trans (State.advance_leads _)
  refine (outcome_ending hd (hl.below hs) _).mono fun stmt s' hl' h he => ?_
  obtain ⟨value, tokens, rfl, hv, hend⟩ := h (he.trans (hl.errors_eq hl' he).symm)
  have hr := ((hs.toEnds.reads_current (hk ▸ by decide)).trans hr₁).trans hr₂
  refine ⟨_, .letStmt hk hname hsign hv, ?_⟩
  rcases hend with ⟨hread, hnext⟩ | ⟨semicolon, hsemi, hread⟩
  · exact .inl ⟨hr.trans hread, hnext⟩
  · exact .inr ⟨semicolon, hsemi, hr.trans hread⟩

theorem outcome_returnStatement (hd : Sound n descend) (hs : s.Below n)
    (hk : s.current.kind = .returnWord) :
    Outcome s (ReadsStatement s) (returnStatement descend s) := by
  refine outcome_within (C := fun t => t.kind = .returnWord) hs hk (fun _ _ _ _ _ h => h) ?_
  intro s hs hk
  rw [current_bind]
  refine Outcome.advance_bind ?_
  refine (outcome_ending hd (s.advance_leads.below hs) _).mono fun stmt s' hl' h he => ?_
  obtain ⟨value, tokens, rfl, hv, hend⟩ := h he
  have hr := hs.toEnds.reads_current (hk ▸ by decide)
  refine ⟨_, .returnStmt hk hv, ?_⟩
  rcases hend with ⟨hread, hnext⟩ | ⟨semicolon, hsemi, hread⟩
  · exact .inl ⟨hr.trans hread, hnext⟩
  · exact .inr ⟨semicolon, hsemi, hr.trans hread⟩

theorem outcome_expressionStatement (hd : Sound n descend) (hs : s.Below n) :
    Outcome s (ReadsStatement s) (expressionStatement descend s) := by
  refine outcome_within (C := fun _ => True) hs trivial (fun _ _ _ _ _ h => h) ?_
  intro s hs _
  rw [current_bind]
  refine (outcome_ending hd hs _).mono fun stmt s' hl' h he => ?_
  obtain ⟨expr, tokens, rfl, hv, hend⟩ := h he
  obtain ⟨first, rest, _, rfl, _⟩ := hv.exists_opening
  have hfirst : s.current = first := by
    rcases hend with ⟨hr, _⟩ | ⟨_, _, hr⟩ <;> exact hr.current_eq
  rw [hfirst]
  exact ⟨_, .exprStmt hv, hend⟩

theorem outcome_statement (hd : Sound n descend) (hs : s.Below n) :
    Outcome s (ReadsStatement s) (statement descend s) := by
  rw [statement, current_bind]
  cases hk : s.current.kind
  case letWord => exact outcome_letStatement hd hs hk
  case returnWord => exact outcome_returnStatement hd hs hk
  all_goals exact outcome_expressionStatement hd hs

/-- A round uses up a token, whether the statement is read or dropped. -/
theorem outcome_addStatement (hd : Sound n descend) (hs : s.Below n) (hk : s.current.kind ≠ .eof)
    (read : List Stmt) :
    Outcome s (fun read' s' => s'.tokens.length < s.tokens.length ∧
        (s'.errors = s.errors → ∃ stmt tokens, read' = stmt :: read ∧ Statement tokens stmt ∧
          (s.tokens = tokens ++ s'.tokens ∧ runsOn s'.current.kind = false ∨
            ∃ semicolon, semicolon.kind = .semicolon ∧
              s.tokens = tokens ++ semicolon :: s'.tokens)))
      (addStatement descend read s) := by
  refine Outcome.bind (outcome_attempt (outcome_statement hd hs)) fun stmt? s₁ hl h => ?_
  refine Outcome.advance_bind (.pure ⟨?_, fun he => ?_⟩)
  · have := hl.length_le
    have := congrArg List.length (hs.toEnds.tokens_eq_cons hk)
    simp only [State.tokens_advance, List.length_tail, List.length_cons] at this ⊢
    omega
  · cases stmt? with
    | none => exact absurd he h
    | some stmt =>
        obtain ⟨tokens, hstmt, hend⟩ := h he
        refine ⟨stmt, tokens, rfl, hstmt, ?_⟩
        rcases hend with hend | ⟨semicolon, hk, hr⟩
        · exact .inl hend
        · exact .inr ⟨semicolon, hk, by simpa [State.Reads] using hr⟩

/-- In the loop over statements: unless there are errors, `read` and any statements that may follow
are derived together. -/
def ReadsStatements (s : State) (read : List Stmt) (s' : State) : Prop :=
  s'.errors = s.errors → ∃ tokens, s.tokens = tokens ++ s'.tokens ∧
    ∀ rest stmts, Statements rest stmts → (∀ next ∈ rest.head?, next = s'.current) →
      Statements (tokens ++ rest) (read.reverse ++ stmts)

theorem ReadsStatements.add {read : List Stmt} {stmt : Stmt} {tokens : List Token}
    (h : ReadsStatements s read s') (he : s'.errors = s.errors) (hstmt : Statement tokens stmt)
    (hend : s'.tokens = tokens ++ s''.tokens ∧ runsOn s''.current.kind = false ∨
      ∃ semicolon, semicolon.kind = .semicolon ∧ s'.tokens = tokens ++ semicolon :: s''.tokens) :
    ReadsStatements s (stmt :: read) s'' := by
  obtain ⟨before, ht, hall⟩ := h he
  intro _
  obtain ⟨first, more, rfl⟩ := List.exists_cons_of_ne_nil hstmt.ne_nil
  rcases hend with ⟨ht', hnext⟩ | ⟨semicolon, hk, ht'⟩
  · refine ⟨before ++ first :: more, by rw [ht, ht', List.append_assoc], fun rest stmts hr hh => ?_⟩
    have hone : Statements (first :: more ++ rest) (stmt :: stmts) :=
      .unended hstmt (fun next hn => hh next hn ▸ hnext) hr
    simpa using hall _ _ hone (by simp [State.current, ht'])
  · refine ⟨before ++ (first :: more ++ [semicolon]), by simp [ht, ht'], fun rest stmts hr _ => ?_⟩
    have hone : Statements (first :: more ++ semicolon :: rest) (stmt :: stmts) :=
      .ended hstmt hk hr
    simpa using hall _ _ hone (by simp [State.current, ht'])

theorem outcome_statements (hd : Sound n descend) (hs : s.Below n) {stops : Kind → Bool}
    (hstops : stops .eof = true) :
    Outcome s (fun stmts s' => stops s'.current.kind = true ∧
        (s'.errors = s.errors → ∃ tokens, Statements tokens stmts ∧ s.tokens = tokens ++ s'.tokens))
      (statements descend stops s) := by
  refine Outcome.bind (outcome_loop (J := fun read s' => s.Leads s' ∧ ReadsStatements s read s')
    ⟨.refl s, fun _ => ⟨[], rfl, fun _ _ h _ => h⟩⟩ ?_ ?_) fun read s' _ h => .pure ⟨?_, ?_⟩
  · intro read s₁ hJ ht
    exact (hJ.1.ends hs.toEnds).stops_of_nil ht hstops
  · intro read s₁ _ hJ hp
    have hk : s₁.current.kind ≠ .eof := by
      intro hk
      exact of_guard_eq_some hp (hk ▸ hstops)
    refine (outcome_addStatement hd (hJ.1.below hs) hk read).mono fun read' s₂ hl h => ?_
    refine ⟨⟨hJ.1.trans hl, fun he => ?_⟩, h.1⟩
    have he₁ := hJ.1.errors_eq hl he
    obtain ⟨stmt, tokens, rfl, hstmt, hend⟩ := h.2 (he.trans he₁.symm)
    exact hJ.2.add he₁ hstmt hend he
  · simpa using guard_eq_none_iff.mp h.2
  · intro he
    obtain ⟨tokens, ht, hall⟩ := h.1.2 he
    exact ⟨tokens, by simpa using hall [] [] .nil (by simp), ht⟩

theorem outcome_block (hd : Sound n descend) (hs : s.Below (n + 1))
    (hk : s.current.kind = .leftBrace) : Outcome s (Derived Body s) (block descend s) := by
  refine outcome_within (C := fun t => t.kind = .leftBrace) hs hk (fun _ _ _ _ _ h => h) ?_
  intro s hs hk
  rw [current_bind]
  refine Outcome.advance_bind ?_
  have hne : s.current.kind ≠ .eof := hk ▸ by decide
  refine Outcome.bind (outcome_statements hd (hs.advance hne) (by decide)) fun stmts s₁ hl h => ?_
  rw [current_bind]
  split
  · exact outcome_reject _
  · rename_i hend
    refine .pure fun he => ?_
    obtain ⟨tokens, hstmts, ht⟩ := h.2 he
    have hclose : s₁.current.kind = .rightBrace := (of_decide_eq_true h.1).resolve_right hend
    have hclosing : s₁.tokens = s₁.current :: s₁.tokens.tail :=
      (hl.ends (hs.advance hne).toEnds).tokens_eq_cons hend
    have hread : s.advance.Reads (tokens ++ [s₁.current]) s₁ := by
      rw [State.Reads, ht, List.append_assoc]
      exact congrArg _ hclosing
    exact ⟨_, .braces hk hstmts hclose, (hs.toEnds.reads_current hne).trans hread⟩

theorem outcome_expectBlock {β : Type} {R : β → State → Prop} {f : Block → Parser β}
    (hd : Sound n descend) (hs : s.Below n) (hint : Option Hint)
    (hf : ∀ body s', s.Leads s' → Derived Body s.advance body s' → Outcome s' R (f body s')) :
    Outcome s R ((do let _ ← expect .leftBrace hint; f (← block descend) : Parser β) s) := by
  refine Outcome.bind (outcome_expect hs.toEnds (by decide)) fun brace s₁ hl h => ?_
  obtain ⟨hk, rfl, hr⟩ := h
  have hs₁ := (hl.below hs).succ
  refine Outcome.bind (outcome_block hd hs₁ (hr.current_eq ▸ hk)) fun body s₂ hl₂ h₂ => ?_
  exact hf body s₂ (hl.trans hl₂) h₂

/-! ## Lists with commas -/

section

variable {Item : List Token → α → Prop} {More : List Token → List α → Prop} {item : Parser α}

/-- In the loop over items: unless there are errors, `read` and any further items are derived
together, behind the first item. -/
def ReadsItems (More : List Token → List α → Prop) (first : α) (s : State) (read : List α)
    (s' : State) : Prop :=
  s'.errors = s.errors → ∃ tokens, s.advance.Reads tokens s' ∧
    ∀ rest others, More rest others → ∃ all,
      read.reverse ++ others = first :: all ∧ More (tokens ++ rest) all

theorem outcome_items (hnil : More [] [])
    (hcons : ∀ comma tokens a rest others, comma.kind = .comma → Item tokens a →
      More rest others → More (comma :: (tokens ++ rest)) (a :: others))
    (hitem : ∀ s : State, s.Below n → Outcome s (Derived Item s.advance) (item s))
    (hs : s.Below n) (first : α) :
    Outcome s (fun all s' => s'.errors = s.errors → ∃ tokens others,
        all = first :: others ∧ More tokens others ∧ s.advance.Reads tokens s')
      (items item first s) := by
  refine Outcome.bind (outcome_loop
    (J := fun read s' => s.Leads s' ∧ ReadsItems More first s read s')
    ⟨.refl s, fun _ => ⟨[], rfl, fun _ others h => ⟨others, rfl, h⟩⟩⟩ ?_ ?_) fun read s' _ h => ?_
  · intro read s₁ hJ ht
    exact (hJ.1.ends hs.toEnds).comma_of_nil ht
  · intro read s₁ _ hJ hp
    have hs₁ := hJ.1.below hs
    have hk : s₁.upcoming.kind = .comma := of_guard_eq_some hp
    have ht : s₁.advance.Reads [s₁.upcoming] s₁.advance := hs₁.toEnds.tail_eq_cons (hk ▸ by decide)
    refine Outcome.advance_bind ?_
    refine Outcome.bind (hitem _ (s₁.advance_leads.below hs₁)) fun a s₂ hl h => .pure ⟨⟨?_, ?_⟩, ?_⟩
    · exact (hJ.1.trans s₁.advance_leads).trans hl
    · intro he
      have he₁ := hJ.1.errors_eq (s₁.advance_leads.trans hl) he
      obtain ⟨us, ha, hr⟩ := h (he.trans he₁.symm)
      obtain ⟨ts, hts, hall⟩ := hJ.2 he₁
      refine ⟨ts ++ ([s₁.upcoming] ++ us), hts.trans (ht.trans hr), fun rest others hm => ?_⟩
      obtain ⟨all, hall, hmore⟩ := hall _ _ (hcons _ us a rest others hk ha hm)
      exact ⟨all, by simpa using hall, by simpa using hmore⟩
    · have hle := hl.length_le
      have hlen := congrArg List.length ht
      simp only [State.tokens_advance, List.length_tail, List.length_append,
        List.length_singleton] at hle hlen ⊢
      omega
  · refine .pure fun he => ?_
    obtain ⟨tokens, ht, hall⟩ := h.1.2 he
    obtain ⟨all, hall, hmore⟩ := hall [] [] hnil
    exact ⟨tokens, all, by simpa using hall, by simpa using hmore, ht⟩

theorem outcome_closedItems (Item : List Token → α → Prop) (More : List Token → List α → Prop)
    {All : List Token → List α → Prop} (hnil : More [] [])
    (hcons : ∀ comma tokens a rest others, comma.kind = .comma → Item tokens a →
      More rest others → More (comma :: (tokens ++ rest)) (a :: others))
    (hall : ∀ tokens a rest others, Item tokens a → More rest others →
      All (tokens ++ rest) (a :: others))
    (hitem : ∀ s : State, s.Below n → Outcome s (Derived Item s.advance) (item s))
    (hs : s.Below n) (hint : Option Hint) :
    Outcome s (Derived (Closed All) s.advance)
      ((do let all ← items item (← item); let _ ← expect .rightParen hint; return all :
        Parser (List α)) s) := by
  refine Outcome.bind (hitem s hs) fun a s₁ hl₁ ha => ?_
  refine Outcome.bind (outcome_items hnil hcons hitem (hl₁.below hs) a) fun all s₂ hl₂ hi => ?_
  have hs₂ := ((hl₁.trans hl₂).below hs).toEnds
  refine Outcome.bind (outcome_expect hs₂ (by decide)) fun closing s₃ hl₃ hc => .pure fun he => ?_
  obtain ⟨hk, rfl, hr₃⟩ := hc
  have he₂ : s₂.errors = s.errors := he
  have he₁ := hl₁.errors_eq hl₂ he₂
  obtain ⟨ts, hts, hr₁⟩ := ha he₁
  obtain ⟨us, others, rfl, hus, hr₂⟩ := hi (he₂.trans he₁.symm)
  refine ⟨_, ⟨ts ++ us, closing, rfl, hall _ _ _ _ hts hus, hk⟩, ?_⟩
  exact (hr₁.trans hr₂).trans hr₃

theorem outcome_noItems {All : List Token → List α → Prop} (hnone : All [] []) (hs : s.Ends)
    (hk : s.upcoming.kind = .rightParen) :
    Outcome s (Derived (Closed All) s.advance) ((do advance; return [] : Parser (List α)) s) := by
  refine Outcome.advance_bind (.pure fun _ => ?_)
  have ht : s.advance.Reads [s.upcoming] s.advance := hs.tail_eq_cons (hk ▸ by decide)
  exact ⟨_, ⟨[], s.upcoming, rfl, hnone, hk⟩, ht⟩

end

theorem outcome_parameters (hs : s.Below n) :
    Outcome s (Derived (Closed Parameters) s.advance) (parameters s) := by
  rw [parameters, upcoming_bind]
  split
  · exact outcome_noItems .nil hs.toEnds ‹_›
  · refine outcome_closedItems (fun ts p => ∃ t, ts = [t] ∧ t.kind = .identifier ∧ p = .ofToken t)
      MoreParameters .nil ?_ ?_ ?_ hs none
    · rintro comma _ _ rest others hk ⟨t, rfl, ht, rfl⟩ h
      exact .cons hk ht h
    · rintro _ _ rest others ⟨t, rfl, ht, rfl⟩ h
      exact .cons ht h
    · intro s hs
      refine Outcome.map (outcome_expect hs.toEnds (by decide)) fun t s' _ h _ => ?_
      obtain ⟨hk, rfl, hr⟩ := h
      exact ⟨[t], ⟨t, rfl, hk, rfl⟩, hr⟩

theorem outcome_arguments (hd : Sound n descend) (hs : s.Below n) :
    Outcome s (Derived (Closed Arguments) s.advance) (arguments descend s) := by
  rw [arguments, upcoming_bind]
  split
  · exact outcome_noItems .nil hs.toEnds ‹_›
  · refine outcome_closedItems (Expression .equality) MoreArguments .nil
      (fun _ _ _ _ _ => .cons) (fun _ _ _ _ => .cons) ?_ hs _
    intro s hs
    refine Outcome.advance_bind ((hd .lowest _ (s.advance_leads.below hs)).mono ?_)
    intro expr s' _ h he
    obtain ⟨tokens, hexpr, hr, _⟩ := h.lowest he
    exact ⟨tokens, hexpr, hr⟩

end ClosureLang.Parser
