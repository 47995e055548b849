import ClosureLang.Parser.Program
import ClosureLang.Proofs.Grammar.Lemmas.Soundness
import ClosureLang.Proofs.Nodes.Lemmas.Statements
import ClosureLang.Proofs.Scanning.Lemmas.Lexemes

/-!
# Nodes of expressions

The rules for expressions, and all rules together: by induction on the depth, the tokens that a tree
carries fit it and have been passed over in their order.
-/

namespace ClosureLang

/-! ## What operators look like -/

/-- The texts of operators are among the signs and symbols. -/
theorem Lexical.eq_symbol {Op : Type} {ofKind? : Kind → Option Op} {symbol : Op → String}
    (hwords : ∀ kind ∈ [.identifier, .integer, .illegal] ++ keywords.map Prod.snd,
      ofKind? kind = none)
    (hsigns : ∀ sign ∈ signs, ∀ op ∈ ofKind? sign.2, [sign.1, '='] = (symbol op).toList)
    (hsymbols : ∀ sign ∈ symbols, ∀ op ∈ ofKind? sign.2, [sign.1] = (symbol op).toList)
    {kind : Kind} {op : Op} (hop : ofKind? kind = some op) {text : List Char}
    (h : Lexical kind text) : text = (symbol op).toList := by
  have hnone (hmem : kind ∈ [.identifier, .integer, .illegal] ++ keywords.map Prod.snd) :
      False := by
    rw [hwords kind hmem] at hop
    cases hop
  cases h with
  | keyword hword => exact (hnone (List.mem_append_right _ (List.mem_map_of_mem hword))).elim
  | identifier _ _ _ | integer _ _ | illegal _ => exact (hnone (by simp)).elim
  | pair hsign => exact hsigns _ hsign op hop
  | symbol hsign => exact hsymbols _ hsign op hop

theorem PrefixOp.literal_eq {source : String} {token : Token} {op : PrefixOp}
    (ht : token ∈ scan source) (hop : PrefixOp.ofKind? token.kind = some op) :
    token.literal = op.symbol :=
  String.toList_inj.mp <|
    (Scanner.lexical_of_mem ht).eq_symbol (by decide) (by decide) (by decide) hop

theorem InfixOp.literal_eq {source : String} {token : Token} {op : InfixOp}
    (ht : token ∈ scan source) (hop : InfixOp.ofKind? token.kind = some op) :
    token.literal = op.symbol :=
  String.toList_inj.mp <|
    (Scanner.lexical_of_mem ht).eq_symbol (by decide) (by decide) (by decide) hop

namespace Parser

variable {n : Nat} {source : String} {s s' : State} {descend : Precedence → Parser Expr}
  {limit : Precedence}

/-! ## The beginning of an expression -/

/-- An expression that carries the current token in front of all others. -/
theorem Reaches.first {expr : Expr} {nodes : List Token} (hs : s.Ends) (hk : s.current.kind ≠ .eof)
    (hfits : expr.Fits (scan source)) (hnodes : expr.nodeTokens = s.current :: nodes)
    (hpasses : s.advance.Passes nodes s'.advance) : Reaches source s expr s' := by
  obtain ⟨read, hsub, htokens⟩ := hpasses
  refine ⟨hfits, [], s.current, nodes, read, hnodes, ?_, hsub, by simp⟩
  rw [← htokens]
  exact hs.tokens_eq_cons hk

theorem Reaches.alone {expr : Expr} (hs : s.Ends) (hk : s.current.kind ≠ .eof)
    (hfits : expr.Fits (scan source)) (hnodes : expr.nodeTokens = [s.current]) :
    Reaches source s expr s :=
  .first hs hk hfits hnodes (.nil _)

/-- Behind an opening parenthesis. -/
theorem Reaches.grouped {expr : Expr} (h : Reaches source s.advance expr s') (hs : s.Ends)
    (hk : s.current.kind = .leftParen) : Reaches source s expr s' := by
  obtain ⟨parens, first, others, read, hnodes, htokens, hsub, hparens⟩ := h.nodes
  refine ⟨h.fits, s.current :: parens, first, others, read, hnodes, ?_, hsub, ?_⟩
  · rw [hs.tokens_eq_cons (hk ▸ by decide), List.cons_append, ← htokens]
    rfl
  · exact List.forall_mem_cons.mpr ⟨hk, hparens⟩

/-- An expression that carries more tokens behind those of `left`. -/
theorem Reaches.extend {left expr : Expr} {nodes : List Token} {s₁ : State}
    (h : Reaches source s left s₁) (hfits : expr.Fits (scan source))
    (hnodes : expr.nodeTokens = left.nodeTokens ++ nodes)
    (hpasses : s₁.advance.Passes nodes s'.advance) : Reaches source s expr s' := by
  obtain ⟨parens, first, others, read, hleft, htokens, hsub, hparens⟩ := h.nodes
  obtain ⟨more, hmore, htokens'⟩ := hpasses
  refine ⟨hfits, parens, first, others ++ nodes, read ++ more, ?_, ?_, hsub.append hmore, hparens⟩
  · rw [hnodes, hleft, List.cons_append]
  · rw [htokens, htokens', List.append_assoc]

theorem reaches_integer (hs : s.Ends) (hk : s.current.kind = .integer) :
    Outcome s (Reaches source s) (integer s) := by
  rw [integer, current_bind]
  cases hv : Integer.ofDigits? s.current.literal with
  | none => exact outcome_reject _
  | some value =>
      exact .pure (.alone hs (hk ▸ by decide) ⟨hk, Integer.ofInt?_eq_some_iff.mp hv⟩ rfl)

theorem reaches_boolean (hs : s.Ends)
    (hk : s.current.kind = .trueWord ∨ s.current.kind = .falseWord) :
    Outcome s (Reaches source s) (boolean s) := by
  rw [boolean, current_bind]
  have hne : s.current.kind ≠ .eof := by rcases hk with hk | hk <;> rw [hk] <;> decide
  refine .pure (.alone hs hne ?_ rfl)
  rcases hk with hk | hk <;> simp [Expr.Fits, hk]

theorem reaches_prefixed (hd : Carrying source n descend) (hs : s.Stands source (n + 1))
    (hk : s.current.kind = .bang ∨ s.current.kind = .minus) :
    Outcome s (Reaches source s) (prefixed descend s) := by
  refine outcome_inside_source (C := fun t => t.kind = .bang ∨ t.kind = .minus) hs hk
    (fun _ _ _ _ _ h => h.note) ?_
  intro s hs hk
  have hne : s.current.kind ≠ .eof := by rcases hk with hk | hk <;> rw [hk] <;> decide
  obtain ⟨op, hop⟩ : ∃ op, PrefixOp.ofKind? s.current.kind = some op := by
    rcases hk with hk | hk <;> rw [hk] <;> exact ⟨_, rfl⟩
  rw [current_bind, hop]
  refine Outcome.advance_bind ?_
  refine Outcome.bind (hd .prefixed _ (hs.advance hne)) fun right s₁ _ hright => .pure ?_
  have hfits : (Expr.prefixed s.current op right).Fits (scan source) :=
    ⟨hop, PrefixOp.literal_eq (hs.mem_scan hne) hop, hright.fits⟩
  exact .first hs.toEnds hne hfits rfl hright.carries.passes

theorem reaches_grouped (hd : Carrying source n descend) (hs : s.Stands source (n + 1))
    (hk : s.current.kind = .leftParen) : Outcome s (Reaches source s) (grouped descend s) := by
  have hs₁ := hs.advance (hk ▸ by decide)
  refine Outcome.advance_bind ?_
  refine Outcome.bind (hd .lowest _ hs₁) fun expr s₁ hl₁ hexpr => ?_
  refine Outcome.bind (outcome_expect (hl₁.ends hs₁.toEnds) (by decide)) fun _ s₂ hl₂ _ => ?_
  exact .pure ((hexpr.leads hl₂).grouped hs.toEnds hk)

theorem reaches_function (hd : Carrying source n descend) (hs : s.Stands source (n + 1))
    (hk : s.current.kind = .fnWord) : Outcome s (Reaches source s) (function descend s) := by
  refine outcome_inside_source (C := fun t => t.kind = .fnWord) hs hk (fun _ _ _ _ _ h => h.note) ?_
  intro s hs hk
  have hne : s.current.kind ≠ .eof := hk ▸ by decide
  rw [current_bind]
  refine Outcome.bind (outcome_expect hs.toEnds (by decide)) fun _ s₁ _ h₁ => ?_
  obtain ⟨-, rfl, -⟩ := h₁
  refine Outcome.bind (carries_parameters (hs.advance hne)) fun names s₂ hl₂ hnames => ?_
  refine carries_expectBlock hd (hl₂.stands (hs.advance hne)) _ fun body s₃ _ hbody => .pure ?_
  have hfits : (Expr.function s.current names body).Fits (scan source) :=
    ⟨hk, hnames.fits, hbody.fits⟩
  refine .first hs.toEnds hne hfits rfl ?_
  exact (hnames.passes.of_leads s.advance.advance_leads).trans hbody.passes

theorem reaches_conditional (hd : Carrying source n descend) (hs : s.Stands source (n + 1))
    (hk : s.current.kind = .ifWord) : Outcome s (Reaches source s) (conditional descend s) := by
  refine outcome_inside_source (C := fun t => t.kind = .ifWord) hs hk (fun _ _ _ _ _ h => h.note) ?_
  intro s hs hk
  have hne : s.current.kind ≠ .eof := hk ▸ by decide
  rw [current_bind]
  refine Outcome.bind (outcome_expect hs.toEnds (by decide)) fun _ s₁ _ h₁ => ?_
  obtain ⟨-, rfl, -⟩ := h₁
  refine Outcome.advance_bind ?_
  have hs₂ := (s.advance.advance_leads).stands (hs.advance hne)
  refine Outcome.bind (hd .lowest _ hs₂) fun condition s₃ hl₃ hcondition => ?_
  have hs₃ := hl₃.stands hs₂
  refine Outcome.bind (outcome_expect hs₃.toEnds (by decide)) fun _ s₄ hl₄ _ => ?_
  have hs₄ := hl₄.stands hs₃
  refine carries_expectBlock hd hs₄ _ fun consequence s₅ hl₅ hconsequence => ?_
  have hs₅ := hl₅.stands hs₄
  have hparts : s.advance.Passes (condition.nodeTokens ++ consequence.nodeTokens) s₅.advance := by
    have hinner := (hcondition.leads hl₄).carries.passes
    exact (hinner.trans hconsequence.passes).of_leads s.advance.advance_leads
  rw [upcoming_bind]
  split
  · refine Outcome.advance_bind ?_
    have hs₆ := s₅.advance_leads.stands hs₅
    refine carries_expectBlock hd hs₆ _ fun alternative s₇ _ halternative => .pure ?_
    refine .first hs.toEnds hne ⟨hk, hcondition.fits, hconsequence.fits, halternative.fits⟩ rfl ?_
    rw [← List.append_assoc]
    exact hparts.trans (halternative.passes.of_leads s₅.advance.advance_leads)
  · refine .pure (.first hs.toEnds hne ⟨hk, hcondition.fits, hconsequence.fits, trivial⟩ rfl ?_)
    simpa [nodeTokensOfAlternative] using hparts

theorem reaches_opening (hd : Carrying source n descend) (hs : s.Stands source (n + 1))
    {opening : Opening} (hk : Opening.ofKind? s.current.kind = some opening) :
    Outcome s (Reaches source s) (opening.rule descend s) := by
  cases hkind : s.current.kind <;>
    simp only [hkind, Opening.ofKind?, Option.some.injEq, reduceCtorEq] at hk <;> subst hk <;>
    rw [Opening.rule]
  case identifier => exact .pure (.alone hs.toEnds (hkind ▸ by decide) ⟨hkind, rfl⟩ rfl)
  case integer => exact reaches_integer hs.toEnds hkind
  case trueWord => exact reaches_boolean hs.toEnds (.inl hkind)
  case falseWord => exact reaches_boolean hs.toEnds (.inr hkind)
  case bang => exact reaches_prefixed hd hs (.inl hkind)
  case minus => exact reaches_prefixed hd hs (.inr hkind)
  case leftParen => exact reaches_grouped hd hs hkind
  case ifWord => exact reaches_conditional hd hs hkind
  case fnWord => exact reaches_function hd hs hkind

/-! ## The rest of an expression -/

/-- An expression whose tokens are those of `left` and others behind them, which have been passed
over. -/
structure Continues (source : String) (left : Expr) (s : State) (expr : Expr) (s' : State) :
    Prop where
  fits : left.Fits (scan source) → expr.Fits (scan source)
  nodes : ∃ nodes, expr.nodeTokens = left.nodeTokens ++ nodes ∧ s.Passes nodes s'.advance

theorem Continues.note {left expr : Expr} {event event' : TraceEvent}
    (h : Continues source left (s.note event) expr s') :
    Continues source left s expr (s'.note event') :=
  ⟨h.fits, h.nodes⟩

theorem continues_infixed (hd : Carrying source n descend) (hs : s.Stands source n) {op : InfixOp}
    (hop : InfixOp.ofKind? s.current.kind = some op) (left : Expr) :
    Outcome s (Continues source left s) (infixed descend left s) := by
  refine outcome_inside_source (C := fun t => InfixOp.ofKind? t.kind = some op)
    (Q := Continues source left) hs hop (fun _ _ _ _ _ h => h.note) ?_
  intro s hs hop
  have hne : s.current.kind ≠ .eof := by intro hk; simp [hk, InfixOp.ofKind?] at hop
  rw [current_bind, hop]
  refine Outcome.advance_bind ?_
  refine Outcome.bind (hd _ _ (s.advance_leads.stands hs)) fun right s₁ _ hright => .pure ?_
  have hsign : s.Passes [s.current] s.advance := .current hs.toEnds hne
  refine ⟨fun hleft => ?_, _, rfl, hsign.trans hright.carries.passes⟩
  exact ⟨hleft, hop, InfixOp.literal_eq (hs.mem_scan hne) hop, hright.fits⟩

theorem continues_call (hd : Carrying source n descend) (hs : s.Stands source n)
    (hk : s.current.kind = .leftParen) (callee : Expr) :
    Outcome s (Continues source callee s) (call descend callee s) := by
  refine outcome_inside_source (C := fun t => t.kind = .leftParen) (Q := Continues source callee)
    hs hk (fun _ _ _ _ _ h => h.note) ?_
  intro s hs hk
  rw [current_bind]
  refine Outcome.bind (carries_arguments hd hs) fun args s₁ _ hargs => .pure ?_
  have hparen : s.Passes [s.current] s.advance := .current hs.toEnds (hk ▸ by decide)
  exact ⟨fun hcallee => ⟨hcallee, hk, hargs.fits⟩, _, rfl, hparen.trans hargs.passes⟩

/-- A round of the loop: the expression so far becomes the left part of a larger one. -/
theorem reaches_extend (hd : Carrying source n descend) {s₀ : State}
    (hs : s.Stands source (n + 1)) {left : Expr} (hleft : Reaches source s₀ left s)
    {continuation : Continuation} (hc : continuation? limit s = some continuation) :
    Outcome s (fun expr s' => Reaches source s₀ expr s' ∧ s'.tokens.length < s.tokens.length)
      (extend descend continuation left s) := by
  have hne := upcoming_ne_eof_of_continuation? hc
  have hlen := hs.toEnds.length_advance_lt_of_upcoming hne
  have hs₁ : s.advance.Stands source n :=
    ⟨hs.toBelow.advance_of_upcoming hne, (s.advance_leads.stands hs).within⟩
  have hext : Outcome s.advance (Continues source left s.advance)
      (continuation.rule descend left s.advance) := by
    rcases upcoming_of_continuation? hc with ⟨rfl, op, hop⟩ | ⟨rfl, hk⟩
    · exact continues_infixed hd hs₁ hop left
    · exact continues_call hd hs₁ hk left
  refine Outcome.advance_bind (hext.mono fun expr s' hl h => ⟨?_, ?_⟩)
  · obtain ⟨nodes, hnodes, hpasses⟩ := h.nodes
    exact hleft.extend (h.fits hleft.fits) hnodes hpasses
  · exact Nat.lt_of_le_of_lt hl.length_le hlen

theorem reaches_expressionStep (hd : Carrying source n descend) (hs : s.Stands source (n + 1)) :
    Outcome s (Reaches source s) (expressionStep descend limit s) := by
  rw [expressionStep, current_bind]
  refine outcome_inside_source (C := fun t => t = s.current) (Q := Reaches source) hs rfl
    (fun _ _ _ _ _ h => h.note) ?_
  intro s₁ hs hc
  rw [← hc]
  cases hk : Opening.ofKind? s₁.current.kind with
  | none => exact outcome_reject _
  | some opening =>
      refine Outcome.bind (reaches_opening hd hs hk) fun left s₂ hl₂ hleft => ?_
      refine (outcome_loop (J := fun left s => s₁.Leads s ∧ Reaches source s₁ left s) ⟨hl₂, hleft⟩
        ?_ ?_).mono fun expr s' _ h => h.1.2
      · intro left s hJ ht
        exact (hJ.1.ends hs.toEnds).continuation?_of_nil ht limit
      · intro left s continuation hJ hc
        refine (reaches_extend hd (hJ.1.stands hs) hJ.2 hc).mono fun expr s' hl h => ?_
        exact ⟨⟨hJ.1.trans hl, h.1⟩, h.2⟩

/-- Every run of the parser for expressions, for a depth that the number of tokens does not reach.
-/
theorem carrying_expression : (n : Nat) → Carrying source n (expression n)
  | 0 => fun _ _ hs => absurd hs.length_lt (Nat.not_lt_zero _)
  | n + 1 => fun _ _ hs => reaches_expressionStep (carrying_expression n) hs

theorem carries_program (hs : s.Stands source n) :
    Outcome s (fun whole s' => FittingStatements (scan source) whole.statements ∧
        s.Passes whole.nodeTokens s') (program n s) := by
  refine outcome_inside_source (C := fun _ => True)
    (Q := fun s (whole : Program) s' => FittingStatements (scan source) whole.statements ∧
      s.Passes whole.nodeTokens s') hs trivial (fun _ _ _ _ _ h => h) ?_
  intro s hs _
  exact Outcome.bind (carries_statements (carrying_expression n) hs (by decide))
    fun _ _ _ h => .pure h

end Parser

end ClosureLang
