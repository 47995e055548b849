import ClosureLang.Proofs.Grammar.Lemmas.Reading

/-!
# What parsers read is derivable

The rules for expressions, and all rules together: by induction on the depth, every run without
errors has passed over tokens that the grammar derives.
-/

namespace ClosureLang.Parser

open Grammar

variable {n : Nat} {s s' : State} {descend : Precedence → Parser Expr} {limit : Precedence}

/-! ## The beginning of an expression -/

/-- Unless there are errors, `expr` is derived on a level that is tighter than `limit` and than all
that may continue it. -/
def Climbs (limit : Precedence) (s : State) (expr : Expr) (s' : State) : Prop :=
  s'.errors = s.errors → ∃ (level : Level) (tokens : List Token),
    (limit.rank < level.rank ∨ level = .prefixed) ∧ Expression level tokens expr ∧
      s.Reads tokens s' ∧ (Precedence.ofKind s'.upcoming.kind).rank ≤ level.rank

theorem Precedence.rank_le_call (p : Precedence) : p.rank ≤ Level.call.rank := by
  cases p <;> decide

theorem Derived.climbs {expr : Expr} (h : Derived (Expression .primary) s expr s') :
    Climbs limit s expr s' := by
  intro he
  obtain ⟨tokens, hexpr, hr⟩ := h he
  exact ⟨.primary, tokens, .inl (Nat.lt_succ_of_le (Precedence.rank_le_call limit)), hexpr, hr,
    Nat.le_succ_of_le (Precedence.rank_le_call _)⟩

theorem outcome_identifier (hs : s.Ends) (hk : s.current.kind = .identifier) :
    Outcome s (Derived (Expression .primary) s) (identifier s) :=
  .pure fun _ => ⟨_, .identifier hk, hs.reads_current (hk ▸ by decide)⟩

theorem outcome_integer (hs : s.Ends) (hk : s.current.kind = .integer) :
    Outcome s (Derived (Expression .primary) s) (integer s) := by
  rw [integer, current_bind]
  cases hv : Integer.ofDigits? s.current.literal with
  | none => exact outcome_reject _
  | some value =>
      refine .pure fun _ => ⟨_, .integer hk ?_, hs.reads_current (hk ▸ by decide)⟩
      exact Integer.ofInt?_eq_some_iff.mp hv

theorem outcome_boolean (hs : s.Ends)
    (hk : s.current.kind = .trueWord ∨ s.current.kind = .falseWord) :
    Outcome s (Derived (Expression .primary) s) (boolean s) := by
  rw [boolean, current_bind]
  rcases hk with hk | hk
  · refine .pure fun _ => ⟨[s.current], ?_, hs.reads_current (hk ▸ by decide)⟩
    simpa [hk] using Expression.true hk
  · refine .pure fun _ => ⟨[s.current], ?_, hs.reads_current (hk ▸ by decide)⟩
    simpa [hk] using Expression.false hk

theorem outcome_prefixed (hd : Sound n descend) (hs : s.Below (n + 1))
    (hk : s.current.kind = .bang ∨ s.current.kind = .minus) :
    Outcome s (Climbs limit s) (prefixed descend s) := by
  refine outcome_within (C := fun t => t.kind = .bang ∨ t.kind = .minus) hs hk
    (fun _ _ _ _ _ h => h) ?_
  intro s hs hk
  have hne : s.current.kind ≠ .eof := by rcases hk with hk | hk <;> rw [hk] <;> decide
  have hread := hs.toEnds.reads_current hne
  have hop : ∃ op, PrefixOp.ofKind? s.current.kind = some op ∧ ∀ tokens right,
      Expression .prefixed tokens right →
      Expression .prefixed (s.current :: tokens) (.prefixed s.current op right) := by
    rcases hk with hk | hk
    · exact ⟨.not, by rw [hk]; rfl, fun _ _ => .not hk⟩
    · exact ⟨.negate, by rw [hk]; rfl, fun _ _ => .negate hk⟩
  obtain ⟨op, hop, hderive⟩ := hop
  rw [current_bind, hop]
  refine Outcome.advance_bind ?_
  refine Outcome.bind (hd .prefixed _ (hs.advance hne)) fun right s₁ hl h => .pure fun he => ?_
  obtain ⟨level, tokens, hlevel, hright, hr, hu⟩ := h he
  have hle : Level.prefixed.rank ≤ level.rank := by
    rcases hlevel with hlt | rfl
    · exact Nat.le_of_lt hlt
    · exact Nat.le_refl _
  exact ⟨.prefixed, _, .inr rfl, hderive _ _ (hright.weaken hle), hread.trans hr, hu⟩

theorem outcome_grouped (hd : Sound n descend) (hs : s.Below (n + 1))
    (hk : s.current.kind = .leftParen) :
    Outcome s (Derived (Expression .primary) s) (grouped descend s) := by
  have hne : s.current.kind ≠ .eof := hk ▸ by decide
  have hs₁ := hs.advance hne
  refine Outcome.advance_bind ?_
  refine Outcome.bind (hd .lowest _ hs₁) fun expr s₁ hl h => ?_
  refine Outcome.bind (outcome_expect (hl.ends hs₁.toEnds) (by decide)) fun closing s₂ _ hc => ?_
  obtain ⟨hclose, rfl, hr₂⟩ := hc
  refine .pure fun he => ?_
  obtain ⟨tokens, hexpr, hr, _⟩ := h.lowest he
  exact ⟨_, .grouped hk hexpr hclose, (hs.toEnds.reads_current hne).trans (hr.trans hr₂)⟩

theorem outcome_function (hd : Sound n descend) (hs : s.Below (n + 1))
    (hk : s.current.kind = .fnWord) :
    Outcome s (Derived (Expression .primary) s) (function descend s) := by
  refine outcome_within (C := fun t => t.kind = .fnWord) hs hk (fun _ _ _ _ _ h => h) ?_
  intro s hs hk
  have hne : s.current.kind ≠ .eof := hk ▸ by decide
  rw [current_bind]
  refine Outcome.bind (outcome_expect hs.toEnds (by decide)) fun opening s₁ hl₁ h₁ => ?_
  obtain ⟨hopen, rfl, hr₁⟩ := h₁
  refine Outcome.bind (outcome_parameters (hs.advance hne)) fun names s₂ hl₂ h₂ => ?_
  have hs₂ := hl₂.below (hs.advance hne)
  refine outcome_expectBlock hd hs₂ _ fun body s₃ hl₃ h₃ => .pure fun he => ?_
  have he₂ : s₂.errors = s.errors := (hl₁.trans hl₂).errors_eq hl₃ he
  obtain ⟨_, ⟨ps, closing, rfl, hps, hclose⟩, hr₂⟩ := h₂ he₂
  obtain ⟨bs, hbody, hr₃⟩ := h₃ (he.trans he₂.symm)
  have hr := (((hs.toEnds.reads_current hne).trans hr₁).trans hr₂).trans hr₃
  exact ⟨_, .function hk hopen hps hclose hbody, by simpa using hr⟩

theorem outcome_conditional (hd : Sound n descend) (hs : s.Below (n + 1))
    (hk : s.current.kind = .ifWord) :
    Outcome s (Derived (Expression .primary) s) (conditional descend s) := by
  refine outcome_within (C := fun t => t.kind = .ifWord) hs hk (fun _ _ _ _ _ h => h) ?_
  intro s hs hk
  have hne : s.current.kind ≠ .eof := hk ▸ by decide
  rw [current_bind]
  refine Outcome.bind (outcome_expect hs.toEnds (by decide)) fun opening s₁ hl₁ h₁ => ?_
  obtain ⟨hopen, rfl, hr₁⟩ := h₁
  refine Outcome.advance_bind ?_
  have hl₂ := hl₁.trans s.advance.advance_leads
  have hs₂ := (s.advance.advance_leads).below (hs.advance hne)
  refine Outcome.bind (hd .lowest _ hs₂) fun condition s₃ hl₃ h₃ => ?_
  have hs₃ := hl₃.below hs₂
  refine Outcome.bind (outcome_expect hs₃.toEnds (by decide)) fun closing s₄ hl₄ h₄ => ?_
  obtain ⟨hclose, rfl, hr₄⟩ := h₄
  have hs₄ := hl₄.below hs₃
  have hl₄ := (hl₂.trans hl₃).trans hl₄
  refine outcome_expectBlock hd hs₄ _ fun consequence s₅ hl₅ h₅ => ?_
  have hs₅ := hl₅.below hs₄
  have hstart := (hs.toEnds.reads_current hne).trans hr₁
  rw [upcoming_bind]
  split
  · rename_i hother
    refine Outcome.advance_bind ?_
    have hs₆ := s₅.advance_leads.below hs₅
    have hne₅ : s₅.upcoming.kind ≠ .eof := hother ▸ by decide
    have hr₆ : s₅.advance.Reads [s₅.upcoming] s₅.advance := hs₆.toEnds.reads_current hne₅
    refine outcome_expectBlock hd hs₆ _ fun alternative s₇ hl₇ h₇ => .pure fun he => ?_
    have hl₆ := hl₅.trans s₅.advance_leads
    have he₄ : s₃.errors = s.errors := hl₄.errors_eq (hl₆.trans hl₇) he
    have he₅ : s₅.errors = s.errors := (hl₄.trans hl₆).errors_eq hl₇ he
    obtain ⟨cs, hcond, hr₃, _⟩ := h₃.lowest he₄
    obtain ⟨bs, hbody, hr₅⟩ := h₅ (he₅.trans he₄.symm)
    obtain ⟨as, hbody', hr₇⟩ := h₇ (he.trans he₅.symm)
    have hr := ((((hstart.trans hr₃).trans hr₄).trans hr₅).trans hr₆).trans hr₇
    exact ⟨_, .alternative hk hopen hcond hclose hbody hother hbody', by simpa using hr⟩
  · refine .pure fun he => ?_
    have he₄ : s₃.errors = s.errors := hl₄.errors_eq hl₅ he
    obtain ⟨cs, hcond, hr₃, _⟩ := h₃.lowest he₄
    obtain ⟨bs, hbody, hr₅⟩ := h₅ (he.trans he₄.symm)
    have hr := ((hstart.trans hr₃).trans hr₄).trans hr₅
    exact ⟨_, .conditional hk hopen hcond hclose hbody, by simpa using hr⟩

theorem outcome_opening (hd : Sound n descend) (hs : s.Below (n + 1)) {opening : Opening}
    (hk : Opening.ofKind? s.current.kind = some opening) :
    Outcome s (Climbs limit s) (opening.rule descend s) := by
  cases hkind : s.current.kind <;>
    simp only [hkind, Opening.ofKind?, Option.some.injEq, reduceCtorEq] at hk <;> subst hk <;>
    rw [Opening.rule]
  case identifier => exact (outcome_identifier hs.toEnds hkind).mono fun _ _ _ h => h.climbs
  case integer => exact (outcome_integer hs.toEnds hkind).mono fun _ _ _ h => h.climbs
  case trueWord => exact (outcome_boolean hs.toEnds (.inl hkind)).mono fun _ _ _ h => h.climbs
  case falseWord => exact (outcome_boolean hs.toEnds (.inr hkind)).mono fun _ _ _ h => h.climbs
  case bang => exact outcome_prefixed hd hs (.inl hkind)
  case minus => exact outcome_prefixed hd hs (.inr hkind)
  case leftParen => exact (outcome_grouped hd hs hkind).mono fun _ _ _ h => h.climbs
  case ifWord => exact (outcome_conditional hd hs hkind).mono fun _ _ _ h => h.climbs
  case fnWord => exact (outcome_function hd hs hkind).mono fun _ _ _ h => h.climbs

/-! ## The rest of an expression -/

theorem le_of_continuation?_eq_none (h : continuation? limit s = none) :
    (Precedence.ofKind s.upcoming.kind).rank ≤ limit.rank := by
  simp only [continuation?] at h
  split at h
  · rename_i hk
    have hpos := Nat.lt_of_le_of_lt (Nat.zero_le _) (Precedence.lt_iff_rank_lt.mp hk.2)
    rcases exists_continuation hpos with ⟨hc, _⟩ | ⟨hc, _⟩ <;> simp [hc] at h
  · rename_i hk
    by_cases hsemi : s.upcoming.kind = .semicolon
    · rw [hsemi]; exact Nat.zero_le _
    · exact Nat.le_of_not_lt fun hlt => hk ⟨hsemi, hlt⟩

theorem lt_of_continuation?_eq_some {continuation : Continuation}
    (h : continuation? limit s = some continuation) :
    limit.rank < (Precedence.ofKind s.upcoming.kind).rank ∧
      Continuation.ofKind? s.upcoming.kind = some continuation := by
  simp only [continuation?] at h
  split at h
  · rename_i hk; exact ⟨hk.2, h⟩
  · cases h

theorem upcoming_of_continuation? {continuation : Continuation}
    (h : continuation? limit s = some continuation) :
    (continuation = .infixed ∧ ∃ op, InfixOp.ofKind? s.upcoming.kind = some op) ∨
      (continuation = .call ∧ s.upcoming.kind = .leftParen) := by
  obtain ⟨hlt, hc⟩ := lt_of_continuation?_eq_some h
  rcases exists_continuation (Nat.lt_of_le_of_lt (Nat.zero_le _) hlt) with ⟨hc', hop⟩ | ⟨hc', hk⟩
  · exact .inl ⟨Option.some.inj (hc.symm.trans hc'), hop⟩
  · exact .inr ⟨Option.some.inj (hc.symm.trans hc'), hk⟩

theorem upcoming_ne_eof_of_continuation? {continuation : Continuation}
    (h : continuation? limit s = some continuation) : s.upcoming.kind ≠ .eof := by
  intro hk
  have hlt := (lt_of_continuation?_eq_some h).1
  rw [hk] at hlt
  exact absurd hlt (Nat.not_lt_zero _)

/-- Unless there are errors, the tokens passed over extend `left` to `expr`, on the level of the
first of them, and what comes next does not bind tighter. -/
def Extends (left : Expr) (s : State) (expr : Expr) (s' : State) : Prop :=
  s'.errors = s.errors → ∃ (level : Level) (tokens : List Token),
    level.rank = (Precedence.ofKind s.current.kind).rank ∧
      (∀ ls, Expression level ls left → Expression level (ls ++ tokens) expr) ∧
      s.Reads tokens s' ∧ (Precedence.ofKind s'.upcoming.kind).rank ≤ level.rank

theorem outcome_infixed (hd : Sound n descend) (hs : s.Below n) {op : InfixOp}
    (hop : InfixOp.ofKind? s.current.kind = some op) (left : Expr) :
    Outcome s (Extends left s) (infixed descend left s) := by
  refine outcome_within (C := fun t => InfixOp.ofKind? t.kind = some op) (Q := Extends left) hs hop
    (fun _ _ _ _ _ h => h) ?_
  intro s hs hop
  have hne : s.current.kind ≠ .eof := by intro hk; simp [hk, InfixOp.ofKind?] at hop
  rw [current_bind, hop]
  refine Outcome.advance_bind ?_
  refine Outcome.bind (hd _ _ (s.advance_leads.below hs)) fun right s₁ hl h => .pure fun he => ?_
  obtain ⟨inner, tokens, hinner, hright, hr, hu⟩ := h he
  obtain ⟨level, hsign, hrank, hbinary⟩ := exists_level hop
  have hlt : level.rank < inner.rank := by
    rcases hinner with hlt | rfl
    · exact hrank ▸ hlt
    · exact hbinary
  refine ⟨level, _, hrank, fun ls hleft => ?_, (hs.toEnds.reads_current hne).trans hr, hrank ▸ hu⟩
  exact .infixed hsign hlt hleft hright

theorem outcome_call (hd : Sound n descend) (hs : s.Below n)
    (hk : s.current.kind = .leftParen) (callee : Expr) :
    Outcome s (Extends callee s) (call descend callee s) := by
  refine outcome_within (C := fun t => t.kind = .leftParen) (Q := Extends callee) hs hk
    (fun _ _ _ _ _ h => h) ?_
  intro s hs hk
  rw [current_bind]
  refine Outcome.bind (outcome_arguments hd hs) fun args s₁ hl h => .pure fun he => ?_
  obtain ⟨_, ⟨as, closing, rfl, has, hclose⟩, hr⟩ := h he
  refine ⟨.call, _, by rw [hk]; rfl, fun ls hleft => ?_,
    (hs.toEnds.reads_current (hk ▸ by decide)).trans hr, Precedence.rank_le_call _⟩
  exact .call hleft hk has hclose

/-- A round of the loop: the expression so far becomes the left part of a larger one. -/
theorem outcome_extend (hd : Sound n descend) {s₀ : State} (hs : s.Below (n + 1)) (hl₀ : s₀.Leads s)
    {left : Expr} (hleft : Climbs limit s₀ left s) {continuation : Continuation}
    (hc : continuation? limit s = some continuation) :
    Outcome s (fun expr s' => Climbs limit s₀ expr s' ∧ s'.tokens.length < s.tokens.length)
      (extend descend continuation left s) := by
  have hlt := (lt_of_continuation?_eq_some hc).1
  have hne := upcoming_ne_eof_of_continuation? hc
  have hlen := hs.toEnds.length_advance_lt_of_upcoming hne
  have hs₁ := hs.advance_of_upcoming hne
  have hext : Outcome s.advance (Extends left s.advance)
      (continuation.rule descend left s.advance) := by
    rcases upcoming_of_continuation? hc with ⟨rfl, op, hop⟩ | ⟨rfl, hk⟩
    · exact outcome_infixed hd hs₁ hop left
    · exact outcome_call hd hs₁ hk left
  refine Outcome.advance_bind (hext.mono fun expr s' hl h => ⟨fun he => ?_, ?_⟩)
  · have he₁ : s.errors = s₀.errors := hl₀.errors_eq (s.advance_leads.trans hl) he
    obtain ⟨level, tokens, hrank, hexpr, hr, hu⟩ := h (he.trans he₁.symm)
    obtain ⟨inner, ls, _, hl, hr₀, hle⟩ := hleft he₁
    refine ⟨level, ls ++ tokens, .inl ?_, hexpr ls (hl.weaken ?_), hr₀.trans hr, hu⟩
    · rw [hrank]; exact hlt
    · rw [hrank]; exact hle
  · exact Nat.lt_of_le_of_lt hl.length_le hlen

theorem outcome_expressionStep (hd : Sound n descend) (hs : s.Below (n + 1)) :
    Outcome s (ReadsExpression limit s) (expressionStep descend limit s) := by
  rw [expressionStep, current_bind]
  refine outcome_within (C := fun t => t = s.current) (Q := ReadsExpression limit) hs rfl
    (fun _ _ _ _ _ h => h) ?_
  intro s₁ hs hc
  rw [← hc]
  cases hk : Opening.ofKind? s₁.current.kind with
  | none => exact outcome_reject _
  | some opening =>
      refine Outcome.bind (Q := Climbs limit s₁) (outcome_opening hd hs hk) fun left s₂ hl₂ h₂ => ?_
      refine (outcome_loop (J := fun left s => s₁.Leads s ∧ Climbs limit s₁ left s) ⟨hl₂, h₂⟩
        ?_ ?_).mono ?_
      · intro left s hJ ht
        exact (hJ.1.ends hs.toEnds).continuation?_of_nil ht limit
      · intro left s continuation hJ hc
        refine (outcome_extend hd (hJ.1.below hs) hJ.1 hJ.2 hc).mono fun expr s' hl h => ?_
        exact ⟨⟨hJ.1.trans hl, h.1⟩, h.2⟩
      · intro expr s' _ h he
        obtain ⟨level, tokens, hlevel, hexpr, hr, _⟩ := h.1.2 he
        exact ⟨level, tokens, hlevel, hexpr, hr, le_of_continuation?_eq_none h.2⟩

/-- Every run of the parser for expressions, for a depth that the number of tokens does not
reach. -/
theorem sound_expression : (n : Nat) → Sound n (expression n)
  | 0 => fun _ _ hs => absurd hs.length_lt (Nat.not_lt_zero _)
  | n + 1 => fun _ _ hs => outcome_expressionStep (sound_expression n) hs

theorem outcome_program (hs : s.Below n) :
    Outcome s (fun whole s' => s'.tokens = [] ∧
        (s'.errors = s.errors → Derives s.tokens whole))
      (program n s) := by
  refine outcome_within (C := fun _ => True) (Q := fun s whole s' => s'.tokens = [] ∧
    (s'.errors = s.errors → Derives s.tokens whole)) hs trivial (fun _ _ _ _ _ h => h) ?_
  intro s hs _
  refine Outcome.bind (outcome_statements (sound_expression n) hs (by decide)) ?_
  intro stmts s' hl h
  have ht : s'.tokens = [] := by
    cases ht : s'.tokens with
    | nil => rfl
    | cons t ts =>
        have hk : t.kind = .eof := by simpa [State.current, ht] using h.1
        exact absurd hk ((hl.ends hs.toEnds).tokens t (by simp [ht]))
  refine .pure ⟨ht, fun he => ?_⟩
  obtain ⟨tokens, hstmts, htokens⟩ := h.2 he
  rw [htokens, ht, List.append_nil]
  exact hstmts

end ClosureLang.Parser
