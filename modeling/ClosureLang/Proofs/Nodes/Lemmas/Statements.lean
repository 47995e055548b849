import ClosureLang.Proofs.Grammar.Lemmas.Reading
import ClosureLang.Proofs.Nodes.Carried
import ClosureLang.Token.Scanner

/-!
# Nodes of statements, blocks and lists

One lemma for each rule: the tokens that its tree carries fit it, and stand in their order among
those that it has passed over, whether or not there are errors. The rules are taken with any way to
read the expressions inside them for which the same is true.
-/

namespace ClosureLang

variable {stream : List Token}

theorem fittingStatements_iff {stmts : List Stmt} :
    FittingStatements stream stmts ↔ ∀ stmt ∈ stmts, stmt.Fits stream := by
  induction stmts with
  | nil => simp [FittingStatements]
  | cons stmt stmts ih => simp [FittingStatements, ih]

theorem fittingAll_iff {exprs : List Expr} :
    FittingAll stream exprs ↔ ∀ expr ∈ exprs, expr.Fits stream := by
  induction exprs with
  | nil => simp [FittingAll]
  | cons expr exprs ih => simp [FittingAll, ih]

theorem nodeTokensOfStatements_eq (stmts : List Stmt) :
    nodeTokensOfStatements stmts = stmts.flatMap Stmt.nodeTokens := by
  induction stmts with
  | nil => rfl
  | cons stmt stmts ih => rw [nodeTokensOfStatements, ih, List.flatMap_cons]

theorem nodeTokensOfAll_eq (exprs : List Expr) :
    nodeTokensOfAll exprs = exprs.flatMap Expr.nodeTokens := by
  induction exprs with
  | nil => rfl
  | cons expr exprs ih => rw [nodeTokensOfAll, ih, List.flatMap_cons]

namespace Parser

variable {α : Type} {n : Nat} {source : String} {s s' s'' : State}
  {descend : Precedence → Parser Expr}

/-! ## Where a parser stands -/

/-- A parser at tokens of a source, with fewer than `n` of them left. -/
structure State.Stands (source : String) (n : Nat) (s : State) : Prop extends s.Below n where
  within : s.tokens <:+ scan source

theorem State.Leads.stands (h : s.Leads s') (hs : s.Stands source n) : s'.Stands source n :=
  ⟨h.below hs.toBelow, h.tokens.trans hs.within⟩

namespace State.Stands

theorem advance (h : s.Stands source (n + 1)) (hk : s.current.kind ≠ .eof) :
    s.advance.Stands source n :=
  ⟨h.toBelow.advance hk, (s.advance_leads.stands h).within⟩

theorem succ (h : s.Stands source n) : s.Stands source (n + 1) :=
  ⟨h.toBelow.succ, h.within⟩

theorem mem_scan (h : s.Stands source n) (hk : s.current.kind ≠ .eof) :
    s.current ∈ scan source := by
  refine h.within.subset ?_
  rw [h.tokens_eq_cons hk]
  exact List.mem_cons_self

end State.Stands

/-- Between `s` and `s'` the tokens `nodes` have been passed over, in this order. -/
def State.Passes (s : State) (nodes : List Token) (s' : State) : Prop :=
  ∃ read, nodes.Sublist read ∧ s.tokens = read ++ s'.tokens

namespace State.Passes

variable {nodes others : List Token}

theorem nil (s : State) : s.Passes [] s :=
  ⟨[], .refl _, rfl⟩

theorem current (hs : s.Ends) (hk : s.current.kind ≠ .eof) : s.Passes [s.current] s.advance :=
  ⟨[s.current], .refl _, hs.tokens_eq_cons hk⟩

theorem trans (h : s.Passes nodes s') (h' : s'.Passes others s'') :
    s.Passes (nodes ++ others) s'' := by
  obtain ⟨read, hsub, htokens⟩ := h
  obtain ⟨more, hsub', htokens'⟩ := h'
  exact ⟨read ++ more, hsub.append hsub', by rw [htokens, htokens', List.append_assoc]⟩

theorem leads (h : s.Passes nodes s') (hl : s'.Leads s'') : s.Passes nodes s'' := by
  obtain ⟨more, hmore⟩ := hl.tokens
  have hpast : s'.Passes [] s'' := ⟨more, List.nil_sublist _, hmore.symm⟩
  simpa using h.trans hpast

theorem of_leads (hl : s.Leads s') (h : s'.Passes nodes s'') : s.Passes nodes s'' := by
  simpa using ((nil s).leads hl).trans h

end State.Passes

/-- A result that fits the source. The tokens that it carries have been passed over, up to the
current one of `s'`. -/
structure Carries (fits : α → Prop) (nodes : α → List Token) (s : State) (a : α) (s' : State) :
    Prop where
  fits : fits a
  passes : s.Passes (nodes a) s'.advance

theorem Carries.leads {fits : α → Prop} {nodes : α → List Token} {a : α}
    (h : Carries fits nodes s a s') (hl : s'.Leads s'') : Carries fits nodes s a s'' :=
  ⟨h.fits, h.passes.leads hl.advance⟩

/-- An expression that fits the source. From `s` on there are only opening parentheses up to the
first token that it carries, and the others have been passed over behind that. -/
structure Reaches (source : String) (s : State) (expr : Expr) (s' : State) : Prop where
  fits : expr.Fits (scan source)
  nodes : ∃ parens first others read, expr.nodeTokens = first :: others ∧
    s.tokens = parens ++ first :: (read ++ s'.advance.tokens) ∧ others.Sublist read ∧
      ∀ paren ∈ parens, paren.kind = .leftParen

theorem Reaches.leads {expr : Expr} (h : Reaches source s expr s') (hl : s'.Leads s'') :
    Reaches source s expr s'' := by
  obtain ⟨parens, first, others, read, hnodes, htokens, hsub, hparens⟩ := h.nodes
  obtain ⟨more, hmore⟩ := hl.advance.tokens
  refine ⟨h.fits, parens, first, others, read ++ more, hnodes, ?_, ?_, hparens⟩
  · rw [htokens, ← hmore, List.append_assoc]
  · exact hsub.trans (List.sublist_append_left _ _)

/-- Traces make no difference. -/
theorem Carries.note {fits : α → Prop} {nodes : α → List Token} {a : α} {event event' : TraceEvent}
    (h : Carries fits nodes (s.note event) a s') : Carries fits nodes s a (s'.note event') :=
  ⟨h.fits, h.passes⟩

theorem Reaches.note {expr : Expr} {event event' : TraceEvent}
    (h : Reaches source (s.note event) expr s') : Reaches source s expr (s'.note event') :=
  ⟨h.fits, h.nodes⟩

abbrev CarriesStmt (source : String) : State → Stmt → State → Prop :=
  Carries (Stmt.Fits (scan source)) Stmt.nodeTokens

abbrev CarriesExpr (source : String) : State → Expr → State → Prop :=
  Carries (Expr.Fits (scan source)) Expr.nodeTokens

theorem Reaches.carries {expr : Expr} (h : Reaches source s expr s') :
    CarriesExpr source s expr s' := by
  obtain ⟨parens, first, others, read, hnodes, htokens, hsub, -⟩ := h.nodes
  refine ⟨h.fits, parens ++ first :: read, ?_, by rw [htokens, List.append_assoc, List.cons_append]⟩
  rw [hnodes]
  exact (hsub.cons_cons first).trans (List.sublist_append_right _ _)

/-- The token at which an expression begins opens it. -/
theorem Reaches.opens {expr : Expr} (h : Reaches source s expr s') (hs : s.Stands source n) :
    s.current.Opens (scan source) expr.nodeTokens := by
  obtain ⟨parens, first, others, read, hnodes, htokens, -, hparens⟩ := h.nodes
  refine ⟨parens, first, others, hnodes, ?_, ?_, hparens⟩
  · have hprefix : (parens ++ [first]) <+: s.tokens :=
      ⟨read ++ s'.advance.tokens, by rw [htokens, List.append_assoc]; rfl⟩
    exact hprefix.isInfix.trans hs.within.isInfix
  · rw [State.current, htokens]
    cases parens <;> rfl

/-- Wherever fewer than `n` tokens are left, the expressions that are read carry tokens of the
source. -/
def Carrying (source : String) (n : Nat) (descend : Precedence → Parser Expr) : Prop :=
  ∀ (limit : Precedence) (s : State), s.Stands source n →
    Outcome s (Reaches source s) (descend limit s)

/-- Inside a rule of the trace nothing but the trace is different. -/
theorem outcome_inside_source {activity : Activity} {p : Parser α} {C : Token → Prop}
    {Q : State → α → State → Prop} (hs : s.Stands source n) (hc : C s.current)
    (hQ : ∀ s a s' event event', Q (s.note event) a s' → Q s a (s'.note event'))
    (hp : ∀ s : State, s.Stands source n → C s.current → Outcome s (Q s) (p s)) :
    Outcome s (Q s) (within activity p s) :=
  outcome_inside hQ (hp _ ((s.note_leads _).stands hs) hc)

/-! ## Statements -/

theorem reaches_ending (hd : Carrying source n descend) (hs : s.Stands source n) (f : Expr → Stmt) :
    Outcome s (fun stmt s' => ∃ expr, stmt = f expr ∧ Reaches source s expr s')
      ((do let expr ← descend .lowest; optionalSemicolon; return f expr : Parser Stmt) s) := by
  refine Outcome.bind (hd .lowest s hs) fun expr s₁ hl₁ hexpr => ?_
  refine Outcome.bind (outcome_optionalSemicolon (hl₁.ends hs.toEnds)) fun _ s₂ hl₂ _ => ?_
  exact .pure ⟨expr, rfl, hexpr.leads hl₂⟩

theorem carries_letStatement (hd : Carrying source n descend) (hs : s.Stands source n)
    (hk : s.current.kind = .letWord) :
    Outcome s (CarriesStmt source s) (letStatement descend s) := by
  refine outcome_inside_source (C := fun t => t.kind = .letWord) hs hk
    (fun _ _ _ _ _ h => h.note) ?_
  intro s hs hk
  rw [current_bind]
  refine Outcome.bind (outcome_expect hs.toEnds (by decide)) fun name s₁ hl₁ h₁ => ?_
  obtain ⟨hname, rfl, hread⟩ := h₁
  have hs₁ := hl₁.stands hs
  refine Outcome.bind (outcome_expect hs₁.toEnds (by decide)) fun _ s₂ hl₂ _ => ?_
  refine Outcome.advance_bind ?_
  refine (reaches_ending hd ((hl₂.trans s₂.advance_leads).stands hs₁) _).mono fun stmt s' _ h => ?_
  obtain ⟨value, rfl, hvalue⟩ := h
  obtain ⟨hfits, hpasses⟩ := hvalue.carries
  have hword : s.Passes [s.current] s.advance := .current hs.toEnds (hk ▸ by decide)
  have hpast : s.advance.Passes [name] s.advance.advance := ⟨[name], .refl _, hread⟩
  exact ⟨⟨hk, ⟨hname, rfl⟩, hfits⟩, hword.trans (hpast.trans (hpasses.of_leads hl₂.advance))⟩

theorem carries_returnStatement (hd : Carrying source n descend) (hs : s.Stands source n)
    (hk : s.current.kind = .returnWord) :
    Outcome s (CarriesStmt source s) (returnStatement descend s) := by
  refine outcome_inside_source (C := fun t => t.kind = .returnWord) hs hk
    (fun _ _ _ _ _ h => h.note) ?_
  intro s hs hk
  rw [current_bind]
  refine Outcome.advance_bind ?_
  refine (reaches_ending hd (s.advance_leads.stands hs) _).mono fun stmt s' _ h => ?_
  obtain ⟨value, rfl, hvalue⟩ := h
  obtain ⟨hfits, hpasses⟩ := hvalue.carries
  have hword : s.Passes [s.current] s.advance := .current hs.toEnds (hk ▸ by decide)
  exact ⟨⟨hk, hfits⟩, hword.trans hpasses⟩

theorem carries_expressionStatement (hd : Carrying source n descend) (hs : s.Stands source n) :
    Outcome s (CarriesStmt source s) (expressionStatement descend s) := by
  refine outcome_inside_source (C := fun _ => True) hs trivial (fun _ _ _ _ _ h => h.note) ?_
  intro s hs _
  rw [current_bind]
  refine (reaches_ending hd hs _).mono fun stmt s' _ h => ?_
  obtain ⟨expr, rfl, hexpr⟩ := h
  obtain ⟨hfits, hpasses⟩ := hexpr.carries
  exact ⟨⟨hexpr.opens hs, hfits⟩, hpasses⟩

theorem carries_statement (hd : Carrying source n descend) (hs : s.Stands source n) :
    Outcome s (CarriesStmt source s) (statement descend s) := by
  rw [statement, current_bind]
  cases hk : s.current.kind
  case letWord => exact carries_letStatement hd hs hk
  case returnWord => exact carries_returnStatement hd hs hk
  all_goals exact carries_expressionStatement hd hs

/-- Of the statements read so far, which have the last one first. -/
structure CarriesStatements (source : String) (s : State) (read : List Stmt) (s' : State) :
    Prop where
  fits : ∀ stmt ∈ read, stmt.Fits (scan source)
  passes : s.Passes (read.reverse.flatMap Stmt.nodeTokens) s'

theorem carries_addStatement (hd : Carrying source n descend) {s₀ : State}
    (hs : s.Stands source n) (hk : s.current.kind ≠ .eof) {read : List Stmt}
    (hread : CarriesStatements source s₀ read s) :
    Outcome s (fun read' s' => CarriesStatements source s₀ read' s' ∧
        s'.tokens.length < s.tokens.length) (addStatement descend read s) := by
  refine Outcome.bind (outcome_attempt (carries_statement hd hs)) fun stmt? s₁ hl h => ?_
  refine Outcome.advance_bind (.pure ⟨?_, ?_⟩)
  · cases stmt? with
    | none => exact ⟨hread.fits, hread.passes.leads (hl.trans s₁.advance_leads)⟩
    | some stmt =>
        obtain ⟨hfits, hpasses⟩ := h
        refine ⟨List.forall_mem_cons.mpr ⟨hfits, hread.fits⟩, ?_⟩
        simpa using hread.passes.trans hpasses
  · exact Nat.lt_of_le_of_lt hl.advance.length_le (hs.toEnds.length_advance_lt hk)

theorem carries_statements (hd : Carrying source n descend) (hs : s.Stands source n)
    {stops : Kind → Bool} (hstops : stops .eof = true) :
    Outcome s (fun stmts s' => FittingStatements (scan source) stmts ∧
        s.Passes (nodeTokensOfStatements stmts) s') (statements descend stops s) := by
  refine Outcome.bind (outcome_loop
    (J := fun read s' => s.Leads s' ∧ CarriesStatements source s read s')
    ⟨.refl s, by simp, .nil s⟩ ?_ ?_) fun read s' _ h => .pure ⟨?_, ?_⟩
  · intro read s₁ hJ ht
    exact (hJ.1.ends hs.toEnds).stops_of_nil ht hstops
  · intro read s₁ _ hJ hp
    have hk : s₁.current.kind ≠ .eof := fun hk => of_guard_eq_some hp (hk ▸ hstops)
    refine (carries_addStatement hd (hJ.1.stands hs) hk hJ.2).mono fun read' s₂ hl h => ?_
    exact ⟨⟨hJ.1.trans hl, h.1⟩, h.2⟩
  · exact fittingStatements_iff.mpr fun stmt hmem => h.1.2.fits stmt (List.mem_reverse.mp hmem)
  · rw [nodeTokensOfStatements_eq]
    exact h.1.2.passes

abbrev CarriesBlock (source : String) : State → Block → State → Prop :=
  Carries (Block.Fits (scan source)) Block.nodeTokens

theorem carries_block (hd : Carrying source n descend) (hs : s.Stands source (n + 1))
    (hk : s.current.kind = .leftBrace) :
    Outcome s (CarriesBlock source s) (block descend s) := by
  refine outcome_inside_source (C := fun t => t.kind = .leftBrace) hs hk
    (fun _ _ _ _ _ h => h.note) ?_
  intro s hs hk
  have hne : s.current.kind ≠ .eof := hk ▸ by decide
  rw [current_bind]
  refine Outcome.advance_bind ?_
  refine Outcome.bind (carries_statements hd (hs.advance hne) (by decide)) fun stmts s₁ _ h => ?_
  rw [current_bind]
  split
  · exact outcome_reject _
  · have hbrace : s.Passes [s.current] s.advance := .current hs.toEnds hne
    exact .pure ⟨⟨hk, h.1⟩, (hbrace.trans h.2).leads s₁.advance_leads⟩

theorem carries_expectBlock {β : Type} {R : β → State → Prop} {f : Block → Parser β}
    (hd : Carrying source n descend) (hs : s.Stands source n) (hint : Option Hint)
    (hf : ∀ body s', s.Leads s' → CarriesBlock source s.advance body s' →
      Outcome s' R (f body s')) :
    Outcome s R ((do let _ ← expect .leftBrace hint; f (← block descend) : Parser β) s) := by
  refine Outcome.bind (outcome_expect hs.toEnds (by decide)) fun brace s₁ hl h => ?_
  obtain ⟨hk, rfl, hread⟩ := h
  have hs₁ := (hl.stands hs).succ
  refine Outcome.bind (carries_block hd hs₁ (hread.current_eq ▸ hk)) fun body s₂ hl₂ h₂ => ?_
  exact hf body s₂ (hl.trans hl₂) h₂

/-! ## Lists with commas -/

section

variable {fits : α → Prop} {nodes : α → List Token} {item : Parser α}

/-- The items read so far have the last one first. -/
structure CarriesItems (fits : α → Prop) (nodes : α → List Token) (s : State) (read : List α)
    (s' : State) : Prop where
  fits : ∀ a ∈ read, fits a
  passes : s.Passes (read.reverse.flatMap nodes) s'.advance

theorem carries_closedItems
    (hitem : ∀ s : State, s.Stands source n → Outcome s (Carries fits nodes s.advance) (item s))
    (hs : s.Stands source n) (hint : Option Hint) :
    Outcome s (Carries (fun all => ∀ a ∈ all, fits a) (List.flatMap nodes) s.advance)
      ((do let all ← items item (← item); let _ ← expect .rightParen hint; return all :
        Parser (List α)) s) := by
  refine Outcome.bind (hitem s hs) fun a s₁ hl₁ ha => ?_
  have hloop : Outcome s₁ (Carries (fun all => ∀ a ∈ all, fits a) (List.flatMap nodes) s.advance)
      (items item a s₁) := by
    refine Outcome.bind (outcome_loop
      (J := fun read s' => s.Leads s' ∧ CarriesItems fits nodes s.advance read s')
      ⟨hl₁, by simpa using ha.fits, by simpa using ha.passes⟩ ?_ ?_)
      fun read s' _ h => .pure ⟨?_, ?_⟩
    · intro read s₂ hJ ht
      exact (hJ.1.ends hs.toEnds).comma_of_nil ht
    · intro read s₂ _ hJ hp
      have hs₂ := hJ.1.stands hs
      have hk : s₂.upcoming.kind = .comma := of_guard_eq_some hp
      refine Outcome.advance_bind ?_
      have hnext := s₂.advance_leads.stands hs₂
      refine Outcome.bind (hitem _ hnext) fun b s₃ hl₃ hb => .pure ⟨⟨?_, ?_⟩, ?_⟩
      · exact (hJ.1.trans s₂.advance_leads).trans hl₃
      · refine ⟨List.forall_mem_cons.mpr ⟨hb.fits, hJ.2.fits⟩, ?_⟩
        simpa using hJ.2.passes.trans (hb.passes.of_leads (State.advance_leads _))
      · have hlt := hs₂.toEnds.length_advance_lt_of_upcoming (hk ▸ by decide)
        exact Nat.lt_of_le_of_lt hl₃.length_le hlt
    · exact fun b hmem => h.1.2.fits b (List.mem_reverse.mp hmem)
    · exact h.1.2.passes
  refine Outcome.bind hloop fun all s₂ hl₂ hall => ?_
  have hs₂ := ((hl₁.trans hl₂).stands hs).toEnds
  exact Outcome.bind (outcome_expect hs₂ (by decide)) fun _ s₃ hl₃ _ => .pure (hall.leads hl₃)

theorem carries_noItems :
    Outcome s (Carries (fun all => ∀ a ∈ all, fits a) (List.flatMap nodes) s.advance)
      ((do advance; return [] : Parser (List α)) s) := by
  refine Outcome.advance_bind (.pure ⟨by simp, ?_⟩)
  exact (State.Passes.nil _).leads (State.advance_leads _)

end

theorem carries_parameters (hs : s.Stands source n) :
    Outcome s (Carries (fun names => ∀ name ∈ names, name.Fits) (List.map Identifier.token)
      s.advance) (parameters s) := by
  have hall : Outcome s (Carries (fun names => ∀ name ∈ names, name.Fits)
      (List.flatMap fun name => [name.token]) s.advance) (parameters s) := by
    rw [parameters, upcoming_bind]
    split
    · exact carries_noItems
    · refine carries_closedItems (fun s hs => ?_) hs none
      refine Outcome.map (outcome_expect hs.toEnds (by decide)) fun token s' _ h => ?_
      obtain ⟨hk, rfl, hread⟩ := h
      exact ⟨⟨hk, rfl⟩, [token], .refl _, hread⟩
  refine hall.mono fun names s' _ h => ⟨h.fits, ?_⟩
  rw [List.map_eq_flatMap]
  exact h.passes

theorem carries_arguments (hd : Carrying source n descend) (hs : s.Stands source n) :
    Outcome s (Carries (FittingAll (scan source)) nodeTokensOfAll s.advance)
      (arguments descend s) := by
  have hall : Outcome s (Carries (fun all => ∀ expr ∈ all, expr.Fits (scan source))
      (List.flatMap Expr.nodeTokens) s.advance) (arguments descend s) := by
    rw [arguments, upcoming_bind]
    split
    · exact carries_noItems
    · refine carries_closedItems (fun s hs => ?_) hs _
      refine Outcome.advance_bind ((hd .lowest _ (s.advance_leads.stands hs)).mono ?_)
      exact fun expr s' _ h => h.carries
  refine hall.mono fun exprs s' _ h => ⟨fittingAll_iff.mpr h.fits, ?_⟩
  rw [nodeTokensOfAll_eq]
  exact h.passes

end Parser

end ClosureLang
