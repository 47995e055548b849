import ClosureLang.Proofs.Grammar.Lemmas.Soundness
import ClosureLang.Proofs.Tracing.Lemmas.Prices

/-!
# What the rules earn

One lemma for each rule: without errors, the balance goes up by the price of the tree that is made.
The rules are taken with any way to read the expressions inside them for which the same is true, at
the price of one more expression.
-/

namespace ClosureLang.Parser

variable {α : Type} {n : Nat} {prices : Prices} {s s' : State}
  {descend : Precedence → Parser Expr} {limit : Precedence}

/-- From the first token of a construct to the one behind its last. -/
def Earned (prices : Prices) (due : α → Int) (s : State) (a : α) (s' : State) : Prop :=
  s.Earns prices (due a) s'.advance

abbrev EarnedStmt (prices : Prices) : State → Stmt → State → Prop :=
  Earned prices fun stmt => prices.total stmt.nodes

abbrev EarnedExpr (prices : Prices) : State → Expr → State → Prop :=
  Earned prices fun expr => prices.total expr.nodes

/-- What is due for an expression that is read: its nodes, and the reading. -/
def dueFor (prices : Prices) (expr : Expr) : Int :=
  prices.total expr.nodes + prices.expression

/-- Expressions are paid for wherever fewer than `n` tokens are left. -/
def Earning (prices : Prices) (n : Nat) (descend : Precedence → Parser Expr) : Prop :=
  ∀ (limit : Precedence) (s : State), s.Below n →
    Outcome s (Earned prices (dueFor prices) s) (descend limit s)

/-! ## Steps -/

/-- The price of a rule is paid when it is entered. -/
theorem earns_within {activity : Activity} {p : Parser α} {C : Token → Prop} {due : α → Int}
    (hs : s.Below n) (hc : C s.current)
    (hp : ∀ s : State, s.Below n → C s.current →
      Outcome s (Earned prices (fun a => due a - prices.rule activity) s) (p s)) :
    Outcome s (Earned prices due s) (within activity p s) := by
  have hrun := hp _ ((s.note_leads (.enter activity)).below hs) hc
  unfold within
  generalize p (s.note (.enter activity)) = r at hrun ⊢
  cases hrun with
  | ok hl hearned => exact .ok (hl.of_note _) (hearned.within.of_eq (add_sub_cancel _ _))
  | dropped hl he => exact .dropped (hl.of_note _) he

theorem outcome_wanted (hs : s.Ends) {wanted : Kind} {hint : Option Hint} (hw : wanted ≠ .eof) :
    Outcome s (fun _ s' => s' = s.advance ∧ s.advance.current.kind = wanted)
      (expect wanted hint s) :=
  (outcome_expect hs hw).mono fun token s' _ h => ⟨h.2.1, by rw [h.2.2.current_eq, h.1]⟩

/-! ## Statements -/

theorem earns_ending (hd : Earning prices n descend) (hs : s.Below n) (f : Expr → Stmt) :
    Outcome s (fun stmt s' => ∃ expr, stmt = f expr ∧ Earned prices (dueFor prices) s expr s')
      ((do let expr ← descend .lowest; optionalSemicolon; return f expr : Parser Stmt) s) := by
  refine Outcome.bind (hd .lowest s hs) fun expr s₁ hl hexpr => ?_
  refine Outcome.bind (outcome_optionalSemicolon (hl.ends hs.toEnds)) fun _ s₂ _ h => .pure ?_
  refine ⟨expr, rfl, ?_⟩
  rcases h with ⟨rfl, -⟩ | ⟨rfl, hk, -⟩
  · exact hexpr
  · exact (hexpr.trans (.token (hk ▸ by decide))).of_eq (Int.add_zero _)

theorem earns_letStatement (hd : Earning prices n descend) (hs : s.Below n)
    (hk : s.current.kind = .letWord) :
    Outcome s (EarnedStmt prices s) (letStatement descend s) := by
  refine earns_within (C := fun t => t.kind = .letWord) hs hk ?_
  intro s hs hk
  rw [current_bind]
  refine Outcome.bind (outcome_wanted hs.toEnds (by decide)) fun name s₁ hl₁ h₁ => ?_
  obtain ⟨rfl, hname⟩ := h₁
  have hs₁ := hl₁.below hs
  refine Outcome.bind (outcome_wanted hs₁.toEnds (by decide)) fun sign s₂ hl₂ h₂ => ?_
  obtain ⟨rfl, hsign⟩ := h₂
  refine Outcome.advance_bind ?_
  have hs₂ := (hl₂.trans (State.advance_leads _)).below hs₁
  refine (earns_ending hd hs₂ _).mono fun stmt s' _ h => ?_
  obtain ⟨value, rfl, hvalue⟩ := h
  have hword : s.Earns prices 0 s.advance := .token (hk ▸ by decide)
  have hnamed := hword.trans (.token (hname ▸ by decide))
  have hsigned := hnamed.trans (.token (hsign ▸ by decide))
  exact (hsigned.trans hvalue).of_eq (by simp [dueFor, Stmt.nodes, Prices.node]; omega)

theorem earns_returnStatement (hd : Earning prices n descend) (hs : s.Below n)
    (hk : s.current.kind = .returnWord) :
    Outcome s (EarnedStmt prices s) (returnStatement descend s) := by
  refine earns_within (C := fun t => t.kind = .returnWord) hs hk ?_
  intro s hs hk
  rw [current_bind]
  refine Outcome.advance_bind ?_
  refine (earns_ending hd (s.advance_leads.below hs) _).mono fun stmt s' _ h => ?_
  obtain ⟨value, rfl, hvalue⟩ := h
  have hword : s.Earns prices 0 s.advance := .token (hk ▸ by decide)
  exact (hword.trans hvalue).of_eq (by simp [dueFor, Stmt.nodes, Prices.node]; omega)

theorem earns_expressionStatement (hd : Earning prices n descend) (hs : s.Below n) :
    Outcome s (EarnedStmt prices s) (expressionStatement descend s) := by
  refine earns_within (C := fun _ => True) hs trivial ?_
  intro s hs _
  rw [current_bind]
  refine (earns_ending hd hs _).mono fun stmt s' _ h => ?_
  obtain ⟨expr, rfl, hexpr⟩ := h
  exact hexpr.of_eq (by simp [dueFor, Stmt.nodes, Prices.node]; omega)

theorem earns_statement (hd : Earning prices n descend) (hs : s.Below n) :
    Outcome s (EarnedStmt prices s) (statement descend s) := by
  rw [statement, current_bind]
  cases hk : s.current.kind
  case letWord => exact earns_letStatement hd hs hk
  case returnWord => exact earns_returnStatement hd hs hk
  all_goals exact earns_expressionStatement hd hs

/-- One more statement on top of those read so far. If it is dropped there are errors. -/
theorem earns_addStatement (hd : Earning prices n descend) {s₀ : State} (hs : s.Below n)
    (hk : s.current.kind ≠ .eof) {read : List Stmt}
    (hread : s₀.Earns prices (prices.total (nodesOfStatements read)) s) :
    Outcome s (fun read' s' => s₀.Earns prices (prices.total (nodesOfStatements read')) s' ∧
        s'.tokens.length < s.tokens.length) (addStatement descend read s) := by
  refine Outcome.bind (outcome_attempt (earns_statement hd hs)) fun stmt? s₁ hl h => ?_
  refine Outcome.advance_bind (.pure ⟨?_, ?_⟩)
  · cases stmt? with
    | none =>
        intro he
        have hnil : s.errors = [] := List.suffix_nil.mp (he ▸ hl.errors)
        exact absurd (he.trans hnil.symm) h
    | some stmt =>
        refine (hread.trans h).of_eq ?_
        simp [nodesOfStatements]
        omega
  · exact Nat.lt_of_le_of_lt hl.advance.length_le (hs.toEnds.length_advance_lt hk)

theorem earns_statements (hd : Earning prices n descend) (hs : s.Below n) {stops : Kind → Bool}
    (hstops : stops .eof = true) :
    Outcome s (fun stmts s' => stops s'.current.kind = true ∧
        s.Earns prices (prices.total (nodesOfStatements stmts)) s')
      (statements descend stops s) := by
  refine Outcome.bind (outcome_loop
    (J := fun read s' => s.Leads s' ∧ s.Earns prices (prices.total (nodesOfStatements read)) s')
    ⟨.refl s, .refl⟩ ?_ ?_) fun read s' _ h => .pure ⟨?_, ?_⟩
  · intro read s₁ hJ ht
    exact (hJ.1.ends hs.toEnds).stops_of_nil ht hstops
  · intro read s₁ _ hJ hp
    have hk : s₁.current.kind ≠ .eof := fun hk => of_guard_eq_some hp (hk ▸ hstops)
    refine (earns_addStatement hd (hJ.1.below hs) hk hJ.2).mono fun read' s₂ hl h => ?_
    exact ⟨⟨hJ.1.trans hl, h.1⟩, h.2⟩
  · simpa using guard_eq_none_iff.mp h.2
  · refine h.1.2.of_eq ?_
    rw [Prices.total_statements, Prices.total_statements, List.map_reverse, List.sum_reverse]

theorem earns_block (hd : Earning prices n descend) (hs : s.Below (n + 1))
    (hk : s.current.kind = .leftBrace) :
    Outcome s (Earned prices (fun block => prices.total block.nodes) s) (block descend s) := by
  refine earns_within (C := fun t => t.kind = .leftBrace) hs hk ?_
  intro s hs hk
  have hne : s.current.kind ≠ .eof := hk ▸ by decide
  rw [current_bind]
  refine Outcome.advance_bind ?_
  refine Outcome.bind (earns_statements hd (hs.advance hne) (by decide)) fun stmts s₁ _ h => ?_
  rw [current_bind]
  split
  · exact outcome_reject _
  · next hend =>
    have hclose : s₁.current.kind = .rightBrace := (of_decide_eq_true h.1).resolve_right hend
    have hopened : s.Earns prices 0 s.advance := .token (hk ▸ by decide)
    have hclosed := (hopened.trans h.2).trans (.token (hclose ▸ by decide))
    exact .pure (hclosed.of_eq (by simp [Block.nodes, Prices.node]))

theorem earns_expectBlock {β : Type} {R : β → State → Prop} {f : Block → Parser β}
    (hd : Earning prices n descend) (hs : s.Below n) (hint : Option Hint)
    (hf : ∀ body s', s.Leads s' → s.advance.Earns prices (prices.total body.nodes) s'.advance →
      Outcome s' R (f body s')) :
    Outcome s R ((do let _ ← expect .leftBrace hint; f (← block descend) : Parser β) s) := by
  refine Outcome.bind (outcome_wanted hs.toEnds (by decide)) fun brace s₁ hl h => ?_
  obtain ⟨rfl, hk⟩ := h
  refine Outcome.bind (earns_block hd (hl.below hs).succ hk) fun body s₂ hl₂ h₂ => ?_
  exact hf body s₂ (hl.trans hl₂) h₂

/-! ## Lists with commas -/

/-- The items in parentheses, if there are any, behind the opening one. -/
theorem earns_closedItems {item : Parser α} {due : α → Int}
    (hitem : ∀ s : State, s.Below n → Outcome s (Earned prices due s.advance) (item s))
    (hs : s.Below n) (hint : Option Hint) :
    Outcome s (Earned prices (fun all => (all.map due).sum) s.advance)
      ((do
        if (← upcoming).kind = .rightParen then
          advance
          return []
        else
          let all ← items item (← item)
          let _ ← expect .rightParen hint
          return all : Parser (List α)) s) := by
  rw [upcoming_bind]
  split
  · next hk =>
    have hclose : s.advance.current.kind = .rightParen := hk
    exact Outcome.advance_bind (.pure (.token (hclose ▸ by decide)))
  · refine Outcome.bind (hitem s hs) fun first s₁ hl₁ hfirst => ?_
    have hloop : Outcome s₁ (Earned prices (fun all => (all.map due).sum) s.advance)
        (items item first s₁) := by
      refine Outcome.bind (outcome_loop (J := fun read s' => s.Leads s' ∧
        s.advance.Earns prices (read.map due).sum s'.advance)
        ⟨hl₁, hfirst.of_eq (by simp)⟩ ?_ ?_) fun read s' _ h => .pure (h.1.2.of_eq ?_)
      · intro read s₂ hJ ht
        exact (hJ.1.ends hs.toEnds).comma_of_nil ht
      · intro read s₂ _ hJ hp
        have hs₂ := hJ.1.below hs
        have hcomma : s₂.advance.current.kind = .comma := of_guard_eq_some hp
        refine Outcome.advance_bind ?_
        refine Outcome.bind (hitem _ (s₂.advance_leads.below hs₂)) fun a s₃ hl₃ ha => .pure ?_
        refine ⟨⟨(hJ.1.trans s₂.advance_leads).trans hl₃, ?_⟩, ?_⟩
        · have hpast := hJ.2.trans (.token (hcomma ▸ by decide))
          exact (hpast.trans ha).of_eq (by simp; omega)
        · have hlt := hs₂.toEnds.length_advance_lt_of_upcoming (hcomma ▸ by decide)
          exact Nat.lt_of_le_of_lt hl₃.length_le hlt
      · simp only [List.map_reverse, List.sum_reverse]
    refine Outcome.bind hloop fun all s₂ hl₂ hall => ?_
    have hs₂ := ((hl₁.trans hl₂).below hs).toEnds
    refine Outcome.bind (outcome_wanted hs₂ (by decide)) fun _ s₃ _ h => .pure ?_
    obtain ⟨rfl, hclose⟩ := h
    exact (hall.trans (.token (hclose ▸ by decide))).of_eq (Int.add_zero _)

theorem earns_parameters (prices : Prices) (hs : s.Below n) :
    Outcome s (Earned prices (fun _ => 0) s.advance) (parameters s) := by
  have hname (s : State) (hs : s.Below n) : Outcome s (Earned prices (fun _ => 0) s.advance)
      ((Identifier.ofToken <$> expect .identifier none : Parser Identifier) s) := by
    refine Outcome.map (outcome_wanted hs.toEnds (by decide)) fun _ s' _ h => ?_
    obtain ⟨rfl, hk⟩ := h
    exact .token (hk ▸ by decide)
  exact (earns_closedItems hname hs none).mono fun names s' _ h => h.of_eq (by simp)

theorem earns_arguments (hd : Earning prices n descend) (hs : s.Below n) :
    Outcome s (Earned prices (fun args => prices.total (nodesOfAll args) +
      prices.expression * args.length) s.advance) (arguments descend s) := by
  have hargument (s : State) (hs : s.Below n) : Outcome s (Earned prices (dueFor prices) s.advance)
      ((do advance; descend .lowest : Parser Expr) s) :=
    Outcome.advance_bind (hd .lowest _ (s.advance_leads.below hs))
  refine (earns_closedItems hargument hs _).mono fun args s' _ h => h.of_eq ?_
  exact prices.total_arguments args

/-! ## The beginning of an expression -/

/-- An expression without anything inside it. -/
theorem earned_leaf {expr : Expr} (hnodes : prices.total expr.nodes = 0)
    (hk : s.current.kind ≠ .leftParen) : EarnedExpr prices s expr s :=
  (State.Earns.token hk).of_eq hnodes.symm

theorem earns_prefixed (hd : Earning prices n descend) (hs : s.Below (n + 1))
    (hk : s.current.kind = .bang ∨ s.current.kind = .minus) :
    Outcome s (EarnedExpr prices s) (prefixed descend s) := by
  refine earns_within (C := fun t => t.kind = .bang ∨ t.kind = .minus) hs hk ?_
  intro s hs hk
  have hne : s.current.kind ≠ .eof ∧ s.current.kind ≠ .leftParen := by
    rcases hk with hk | hk <;> rw [hk] <;> exact ⟨nofun, nofun⟩
  obtain ⟨op, hop⟩ : ∃ op, PrefixOp.ofKind? s.current.kind = some op := by
    rcases hk with hk | hk <;> rw [hk] <;> exact ⟨_, rfl⟩
  rw [current_bind, hop]
  refine Outcome.advance_bind ?_
  refine Outcome.bind (hd .prefixed _ (hs.advance hne.1)) fun right s₁ _ hright => .pure ?_
  have hsign : s.Earns prices 0 s.advance := .token hne.2
  exact (hsign.trans hright).of_eq (by simp [dueFor, Expr.nodes, Prices.node]; omega)

/-- The parenthesis pays for reading the expression behind it. -/
theorem earns_grouped (hd : Earning prices n descend) (hs : s.Below (n + 1))
    (hk : s.current.kind = .leftParen) :
    Outcome s (EarnedExpr prices s) (grouped descend s) := by
  have hs₁ := hs.advance (hk ▸ by decide)
  refine Outcome.advance_bind ?_
  refine Outcome.bind (hd .lowest _ hs₁) fun expr s₁ hl₁ hexpr => ?_
  refine Outcome.bind (outcome_wanted (hl₁.ends hs₁.toEnds) (by decide)) fun _ s₂ _ h => .pure ?_
  obtain ⟨rfl, hclose⟩ := h
  have hopened : s.Earns prices (-prices.expression) s.advance := .paren hs.toEnds hk
  have hclosed := (hopened.trans hexpr).trans (.token (hclose ▸ by decide))
  exact hclosed.of_eq (by simp [dueFor])

theorem earns_function (hd : Earning prices n descend) (hs : s.Below (n + 1))
    (hk : s.current.kind = .fnWord) :
    Outcome s (EarnedExpr prices s) (function descend s) := by
  refine earns_within (C := fun t => t.kind = .fnWord) hs hk ?_
  intro s hs hk
  have hs₁ := hs.advance (hk ▸ by decide)
  rw [current_bind]
  refine Outcome.bind (outcome_wanted hs.toEnds (by decide)) fun _ s₁ _ h₁ => ?_
  obtain ⟨rfl, hopen⟩ := h₁
  refine Outcome.bind (earns_parameters prices hs₁) fun names s₂ hl₂ hnames => ?_
  refine earns_expectBlock hd (hl₂.below hs₁) _ fun body s₃ _ hbody => .pure ?_
  have hword : s.Earns prices 0 s.advance := .token (hk ▸ by decide)
  have hopened := hword.trans (.paren hs₁.toEnds hopen)
  exact ((hopened.trans hnames).trans hbody).of_eq (by simp [Expr.nodes, Prices.node]; omega)

theorem earns_conditional (hd : Earning prices n descend) (hs : s.Below (n + 1))
    (hk : s.current.kind = .ifWord) :
    Outcome s (EarnedExpr prices s) (conditional descend s) := by
  refine earns_within (C := fun t => t.kind = .ifWord) hs hk ?_
  intro s hs hk
  have hs₁ := hs.advance (hk ▸ by decide)
  rw [current_bind]
  refine Outcome.bind (outcome_wanted hs.toEnds (by decide)) fun _ s₁ _ h₁ => ?_
  obtain ⟨rfl, hopen⟩ := h₁
  refine Outcome.advance_bind ?_
  have hs₂ := s.advance.advance_leads.below hs₁
  refine Outcome.bind (hd .lowest _ hs₂) fun condition s₃ hl₃ hcondition => ?_
  have hs₃ := hl₃.below hs₂
  refine Outcome.bind (outcome_wanted hs₃.toEnds (by decide)) fun _ s₄ hl₄ h₄ => ?_
  obtain ⟨rfl, hclose⟩ := h₄
  have hs₄ := hl₄.below hs₃
  refine earns_expectBlock hd hs₄ _ fun consequence s₅ hl₅ hconsequence => ?_
  have hs₅ := hl₅.below hs₄
  have hword : s.Earns prices 0 s.advance := .token (hk ▸ by decide)
  have hopened := hword.trans (.paren hs₁.toEnds hopen)
  have hclosed := (hopened.trans hcondition).trans (.token (hclose ▸ by decide))
  have hthen := hclosed.trans hconsequence
  rw [upcoming_bind]
  split
  · next hother =>
    have hother : s₅.advance.current.kind = .elseWord := hother
    refine Outcome.advance_bind ?_
    have hs₆ := s₅.advance_leads.below hs₅
    refine earns_expectBlock hd hs₆ _ fun alternative s₇ _ halternative => .pure ?_
    have helse := (hthen.trans (.token (hother ▸ by decide))).trans halternative
    exact helse.of_eq (by simp [dueFor, Expr.nodes, nodesOfAlternative, Prices.node]; omega)
  · exact .pure (hthen.of_eq (by simp [dueFor, Expr.nodes, nodesOfAlternative, Prices.node]))

theorem earns_opening (hd : Earning prices n descend) (hs : s.Below (n + 1)) {opening : Opening}
    (hk : Opening.ofKind? s.current.kind = some opening) :
    Outcome s (EarnedExpr prices s) (opening.rule descend s) := by
  cases hkind : s.current.kind <;>
    simp only [hkind, Opening.ofKind?, Option.some.injEq, reduceCtorEq] at hk <;> subst hk <;>
    rw [Opening.rule]
  case identifier => exact .pure (earned_leaf rfl (hkind ▸ by decide))
  case integer =>
      rw [integer, current_bind]
      cases Integer.ofDigits? s.current.literal with
      | none => exact outcome_reject _
      | some value => exact .pure (earned_leaf rfl (hkind ▸ by decide))
  case trueWord => exact .pure (earned_leaf rfl (hkind ▸ by decide))
  case falseWord => exact .pure (earned_leaf rfl (hkind ▸ by decide))
  case bang => exact earns_prefixed hd hs (.inl hkind)
  case minus => exact earns_prefixed hd hs (.inr hkind)
  case leftParen => exact earns_grouped hd hs hkind
  case ifWord => exact earns_conditional hd hs hkind
  case fnWord => exact earns_function hd hs hkind

/-! ## The rest of an expression -/

/-- What is due for an expression, apart from what has been paid for its left part. -/
def dueBehind (prices : Prices) (left expr : Expr) : Int :=
  prices.total expr.nodes - prices.total left.nodes

theorem earns_infixed (hd : Earning prices n descend) (hs : s.Below n) {op : InfixOp}
    (hop : InfixOp.ofKind? s.current.kind = some op) (left : Expr) :
    Outcome s (Earned prices (dueBehind prices left) s) (infixed descend left s) := by
  refine earns_within (C := fun t => InfixOp.ofKind? t.kind = some op) hs hop ?_
  intro s hs hop
  have hne : s.current.kind ≠ .leftParen := by intro hk; simp [hk, InfixOp.ofKind?] at hop
  rw [current_bind, hop]
  refine Outcome.advance_bind ?_
  refine Outcome.bind (hd _ _ (s.advance_leads.below hs)) fun right s₁ _ hright => .pure ?_
  have hsign : s.Earns prices 0 s.advance := .token hne
  exact (hsign.trans hright).of_eq (by simp [dueBehind, dueFor, Expr.nodes, Prices.node]; omega)

theorem earns_call (hd : Earning prices n descend) (hs : s.Below n)
    (hk : s.current.kind = .leftParen) (callee : Expr) :
    Outcome s (Earned prices (dueBehind prices callee) s) (call descend callee s) := by
  refine earns_within (C := fun t => t.kind = .leftParen) hs hk ?_
  intro s hs hk
  rw [current_bind]
  refine Outcome.bind (earns_arguments hd hs) fun args s₁ _ hargs => .pure ?_
  have hopened : s.Earns prices (-prices.expression) s.advance := .paren hs.toEnds hk
  exact (hopened.trans hargs).of_eq (by simp [dueBehind, Expr.nodes, Prices.node]; omega)

/-- A round of the loop: the expression so far becomes the left part of a larger one. -/
theorem earns_extend (hd : Earning prices n descend) {s₀ : State} (hs : s.Below (n + 1))
    {left : Expr} (hleft : EarnedExpr prices s₀ left s)
    {continuation : Continuation} (hc : continuation? limit s = some continuation) :
    Outcome s (fun expr s' => EarnedExpr prices s₀ expr s' ∧
        s'.tokens.length < s.tokens.length) (extend descend continuation left s) := by
  have hne := upcoming_ne_eof_of_continuation? hc
  have hlen := hs.toEnds.length_advance_lt_of_upcoming hne
  have hs₁ := hs.advance_of_upcoming hne
  have hext : Outcome s.advance (Earned prices (dueBehind prices left) s.advance)
      (continuation.rule descend left s.advance) := by
    rcases upcoming_of_continuation? hc with ⟨rfl, op, hop⟩ | ⟨rfl, hk⟩
    · exact earns_infixed hd hs₁ hop left
    · exact earns_call hd hs₁ hk left
  refine Outcome.advance_bind (hext.mono fun expr s' hl h => ⟨?_, ?_⟩)
  · exact (hleft.trans h).of_eq (add_sub_cancel _ _)
  · exact Nat.lt_of_le_of_lt hl.length_le hlen

theorem earns_expressionStep (hd : Earning prices n descend) (hs : s.Below (n + 1)) :
    Outcome s (Earned prices (dueFor prices) s) (expressionStep descend limit s) := by
  rw [expressionStep, current_bind]
  refine earns_within (C := fun t => t = s.current) hs rfl ?_
  intro s₁ hs hc
  rw [← hc]
  cases hk : Opening.ofKind? s₁.current.kind with
  | none => exact outcome_reject _
  | some opening =>
      refine Outcome.bind (earns_opening hd hs hk) fun left s₂ hl₂ hleft => ?_
      refine (outcome_loop (J := fun left s => s₁.Leads s ∧
        EarnedExpr prices s₁ left s) ⟨hl₂, hleft⟩ ?_ ?_).mono ?_
      · intro left s hJ ht
        exact (hJ.1.ends hs.toEnds).continuation?_of_nil ht limit
      · intro left s continuation hJ hc
        refine (earns_extend hd (hJ.1.below hs) hJ.2 hc).mono fun expr s' hl h => ?_
        exact ⟨⟨hJ.1.trans hl, h.1⟩, h.2⟩
      · intro expr s' _ h
        exact h.1.2.of_eq (by simp only [prices.rule_expression, dueFor, Int.add_sub_cancel])

/-- Every run of the parser for expressions, for a depth that the number of tokens does not reach.
-/
theorem earning_expression : (n : Nat) → Earning prices n (expression n)
  | 0 => fun _ _ hs => absurd hs.length_lt (Nat.not_lt_zero _)
  | n + 1 => fun _ _ hs => earns_expressionStep (earning_expression n) hs

theorem earns_program (prices : Prices) (hs : s.Below n) :
    Outcome s (Earned prices (fun whole => prices.total whole.nodes) s) (program n s) := by
  refine earns_within (C := fun _ => True) hs trivial ?_
  intro s hs _
  have hd : Earning prices n (expression n) := earning_expression n
  refine Outcome.bind (earns_statements hd hs (by decide)) fun stmts s₁ _ h => .pure ?_
  have hend : s₁.current.kind = .eof := of_decide_eq_true h.1
  exact (h.2.trans (.token (hend ▸ by decide))).of_eq (by simp [Program.nodes, Prices.node])

end ClosureLang.Parser
