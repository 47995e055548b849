import ClosureLang.Parser.Rules
import ClosureLang.Proofs.Grammar.Lemmas.Outcomes
import ClosureLang.Proofs.Placing.Lemmas.Lockstep
import ClosureLang.Proofs.Placing.Placed

/-!
# Parsing tokens in other places

A parser looks at the kinds and literals of tokens and never at their spans. Where tokens are placed
elsewhere it does the same, and what it makes and records is placed elsewhere as well. Bounds that
are larger make no difference, as long as the smaller ones are not used up.
-/

namespace ClosureLang.Parser

variable {α β : Type} {place : Token → Span} {descend descend' : Precedence → Parser Expr}

/-- The state `t` is `s` with its tokens in other places. The trace may be any. -/
structure State.Moves (place : Token → Span) (s t : State) : Prop where
  tokens : t.tokens = s.tokens.map (Token.placed place)
  finish : t.finish = s.finish.placed place
  errors : t.errors = s.errors.map (SyntaxError.placed place)

/-- The parser `q` does on moved tokens what `p` does, unless `p` is exhausted. -/
def Moves (place : Token → Span) (move : α → β) (p : Parser α) (q : Parser β) : Prop :=
  ∀ s t, s.Moves place t →
    (∃ s', p s = .error .exhausted s') ∨ EndAlike (State.Moves place) move (p s) (q t)

namespace State.Moves

variable {s t : State}

theorem current (h : s.Moves place t) : t.current = s.current.placed place := by
  rw [State.current, State.current, h.tokens, h.finish]
  cases s.tokens <;> rfl

theorem advance (h : s.Moves place t) : s.advance.Moves place t.advance :=
  ⟨by rw [tokens_advance, tokens_advance, h.tokens, List.map_tail], h.finish, h.errors⟩

theorem upcoming (h : s.Moves place t) : t.upcoming = s.upcoming.placed place :=
  h.advance.current

theorem note (h : s.Moves place t) (event event' : TraceEvent) :
    (s.note event).Moves place (t.note event') :=
  ⟨h.tokens, h.finish, h.errors⟩

theorem record (h : s.Moves place t) (error : SyntaxError) :
    (s.record error).Moves place (t.record (error.placed place)) :=
  ⟨h.tokens, h.finish, by rw [State.record, State.record, h.errors, List.map_cons]⟩

end State.Moves

namespace Moves

variable {α' β' : Type} {move : α → α'} {move' : β → β'}

theorem of_inStep {p : Parser α} {q : Parser α'} (h : InStep (State.Moves place) move p q) :
    Moves place move p q :=
  fun s t hs => .inr (h s t hs)

theorem pure {a : α} {b : α'} (h : move a = b) :
    Moves place move (Pure.pure a : Parser α) (Pure.pure b) :=
  of_inStep (.pure h)

theorem throw (failure : Failure) :
    Moves place move (MonadExcept.throw failure : Parser α) (MonadExcept.throw failure) :=
  of_inStep (.throw failure)

theorem exhausted (q : Parser α') :
    Moves place move (MonadExcept.throw Failure.exhausted : Parser α) q :=
  fun s _ _ => .inl ⟨s, rfl⟩

theorem bind {p : Parser α} {q : Parser α'} {f : α → Parser β} {g : α' → Parser β'}
    (hp : Moves place move p q) (hf : ∀ a, Moves place move' (f a) (g (move a))) :
    Moves place move' (p >>= f) (q >>= g) := by
  intro s t hs
  simp only [Bind.bind, EStateM.bind]
  rcases hp s t hs with ⟨s', hexhausted⟩ | h
  · exact .inl ⟨s', by rw [hexhausted]⟩
  · generalize p s = r at h ⊢
    generalize q t = r' at h ⊢
    cases h with
    | ok hs => exact hf _ _ _ hs
    | error hs => exact .inr (.error hs)

theorem map {p : Parser α} {q : Parser α'} {f : α → β} {g : α' → β'}
    (hp : Moves place move p q) (hf : ∀ a, move' (f a) = g (move a)) :
    Moves place move' (f <$> p) (g <$> q) := by
  rw [map_eq_pure_bind, map_eq_pure_bind]
  exact hp.bind fun a => pure (hf a)

theorem current : Moves place (Token.placed place) Parser.current Parser.current := by
  intro s t hs
  have ht : Parser.current t = .ok (s.current.placed place) t := by rw [← hs.current]; rfl
  rw [ht]
  exact .inr (.ok hs)

theorem upcoming : Moves place (Token.placed place) Parser.upcoming Parser.upcoming := by
  intro s t hs
  have ht : Parser.upcoming t = .ok (s.upcoming.placed place) t := by rw [← hs.upcoming]; rfl
  rw [ht]
  exact .inr (.ok hs)

theorem advance : Moves place id Parser.advance Parser.advance :=
  fun _ _ hs => .inr (.ok hs.advance)

theorem reject (error : SyntaxError) :
    Moves place move (Parser.reject error : Parser α) (Parser.reject (error.placed place)) :=
  fun _ _ hs => .inr (.error (hs.record error))

theorem expect (wanted : Kind) (hint : Option Hint) :
    Moves place (Token.placed place) (Parser.expect wanted hint) (Parser.expect wanted hint) := by
  refine upcoming.bind fun token => ?_
  rw [Token.kind_placed]
  split
  · exact advance.bind fun _ => pure rfl
  · exact Moves.reject ⟨token, .expected wanted hint⟩

theorem within (activity activity' : Activity) {p : Parser α} {q : Parser α'}
    (h : Moves place move p q) :
    Moves place move (Parser.within activity p) (Parser.within activity' q) := by
  intro s t hs
  have hrun := h _ _ (hs.note (.enter activity) (.enter activity'))
  unfold Parser.within
  rcases hrun with ⟨s', hexhausted⟩ | hrun
  · exact .inl ⟨s'.note (.leave activity), by rw [hexhausted]⟩
  · generalize p _ = r at hrun ⊢
    generalize q _ = r' at hrun ⊢
    cases hrun with
    | ok hs => exact .inr (.ok (hs.note _ _))
    | error hs => exact .inr (.error (hs.note _ _))

theorem attempt {p : Parser α} {q : Parser α'} (h : Moves place move p q) :
    Moves place (Option.map move) (Parser.attempt p) (Parser.attempt q) := by
  intro s t hs
  have hrun := h s t hs
  unfold Parser.attempt
  rcases hrun with ⟨s', hexhausted⟩ | hrun
  · exact .inl ⟨s', by rw [hexhausted]⟩
  · generalize p s = r at hrun ⊢
    generalize q t = r' at hrun ⊢
    cases hrun with
    | ok hs => exact .inr (.ok hs)
    | @error failure _ _ hs =>
        cases failure with
        | dropped => exact .inr (.ok hs)
        | exhausted => exact .inr (.error hs)

theorem rounds {γ : Type} {pick : State → Option γ} {round : γ → α → Parser α}
    {round' : γ → α' → Parser α'}
    (hpick : ∀ s t, s.Moves place t → pick t = pick s)
    (hround : ∀ c a, Moves place move (round c a) (round' c (move a))) :
    ∀ (left left' : List Token), left.length ≤ left'.length → ∀ a,
      Moves place move (Parser.rounds pick round left a) (Parser.rounds pick round' left' (move a))
  | left, left', hlength, a => by
      intro s t hs
      have ht := hpick s t hs
      cases hs' : pick s with
      | none =>
          rw [hs'] at ht
          rw [rounds_of_none hs', rounds_of_none ht]
          exact .inr (.ok hs)
      | some c =>
          rw [hs'] at ht
          match left, left', hlength with
          | [], _, _ =>
              rw [Parser.rounds, get_bind, hs']
              exact .inl ⟨s, rfl⟩
          | _ :: left, _ :: left', hlength =>
              rw [rounds_of_some hs', rounds_of_some ht]
              exact (hround c a).bind (fun a => rounds hpick hround left left'
                (Nat.le_of_succ_le_succ hlength) a) s t hs

theorem loop {γ : Type} {pick : State → Option γ} {round : γ → α → Parser α}
    {round' : γ → α' → Parser α'}
    (hpick : ∀ s t, s.Moves place t → pick t = pick s)
    (hround : ∀ c a, Moves place move (round c a) (round' c (move a))) (a : α) :
    Moves place move (Parser.loop pick round a) (Parser.loop pick round' (move a)) := by
  intro s t hs
  have hlength : s.tokens.length ≤ t.tokens.length :=
    Nat.le_of_eq (by rw [hs.tokens, List.length_map])
  exact rounds hpick hround s.tokens t.tokens hlength a s t hs

end Moves

/-- Expressions are read alike, whatever the limit. -/
def MovesAll (place : Token → Span) (descend descend' : Precedence → Parser Expr) : Prop :=
  ∀ limit, Moves place (Expr.placed place) (descend limit) (descend' limit)

/-! ## Statements -/

theorem moves_optionalSemicolon : Moves place id optionalSemicolon optionalSemicolon := by
  refine Moves.upcoming.bind fun token => ?_
  rw [Token.kind_placed]
  split
  · exact Moves.advance
  · exact .pure rfl

theorem moves_letStatement (hd : MovesAll place descend descend') :
    Moves place (Stmt.placed place) (letStatement descend) (letStatement descend') := by
  refine Moves.within _ _ (Moves.current.bind fun token => (Moves.expect _ _).bind fun name => ?_)
  refine (Moves.expect _ _).bind fun _ => Moves.advance.bind fun _ => (hd _).bind fun value => ?_
  exact moves_optionalSemicolon.bind fun _ => .pure rfl

theorem moves_returnStatement (hd : MovesAll place descend descend') :
    Moves place (Stmt.placed place) (returnStatement descend) (returnStatement descend') := by
  refine Moves.within _ _ (Moves.current.bind fun token => Moves.advance.bind fun _ => ?_)
  exact (hd _).bind fun value => moves_optionalSemicolon.bind fun _ => .pure rfl

theorem moves_expressionStatement (hd : MovesAll place descend descend') :
    Moves place (Stmt.placed place) (expressionStatement descend)
      (expressionStatement descend') := by
  refine Moves.within _ _ (Moves.current.bind fun token => (hd _).bind fun expr => ?_)
  exact moves_optionalSemicolon.bind fun _ => .pure rfl

theorem moves_statement (hd : MovesAll place descend descend') :
    Moves place (Stmt.placed place) (statement descend) (statement descend') := by
  refine Moves.current.bind fun token => ?_
  rw [Token.kind_placed]
  split
  · exact moves_letStatement hd
  · exact moves_returnStatement hd
  · exact moves_expressionStatement hd

/-- What has been read before may be more than is moved. -/
theorem moves_addStatement (hd : MovesAll place descend descend') (before read : List Stmt) :
    Moves place (fun read => read.map (Stmt.placed place) ++ before) (addStatement descend read)
      (addStatement descend' (read.map (Stmt.placed place) ++ before)) := by
  refine (moves_statement hd).attempt.bind fun stmt? => Moves.advance.bind fun _ => .pure ?_
  cases stmt? <;> rfl

theorem State.Moves.guard_eq {s t : State} (h : s.Moves place t) (stops : Kind → Bool) :
    guard (¬ stops t.current.kind) = (guard (¬ stops s.current.kind) : Option Unit) := by
  rw [h.current, Token.kind_placed]

theorem moves_statements (hd : MovesAll place descend descend') (stops : Kind → Bool) :
    Moves place (placedStatements place) (statements descend stops)
      (statements descend' stops) := by
  have hadd : ∀ (_ : Unit) (read : List Stmt), Moves place (List.map (Stmt.placed place))
      (addStatement descend read) (addStatement descend' (read.map (Stmt.placed place))) := by
    intro _ read
    simpa using moves_addStatement hd [] read
  refine (Moves.loop (fun s t hs => hs.guard_eq stops) hadd []).bind fun read => .pure ?_
  rw [placedStatements_eq_map, List.map_reverse]

theorem moves_block (hd : MovesAll place descend descend') :
    Moves place (Block.placed place) (block descend) (block descend') := by
  refine Moves.within _ _ (Moves.current.bind fun opening => Moves.advance.bind fun _ => ?_)
  refine (moves_statements hd _).bind fun stmts => Moves.current.bind fun last => ?_
  rw [Token.kind_placed]
  split
  · exact Moves.reject ⟨last, .unclosed opening⟩
  · exact .pure rfl

/-! ## Lists of items -/

theorem moves_items {move : α → α} {item item' : Parser α} (hitem : Moves place move item item')
    (first : α) : Moves place (List.map move) (items item first) (items item' (move first)) := by
  have hadd : ∀ (_ : Unit) (read : List α), Moves place (List.map move)
      (addItem item read) (addItem item' (read.map move)) :=
    fun _ read => Moves.advance.bind fun _ => hitem.bind fun a => .pure rfl
  have hpick : ∀ s t : State, s.Moves place t →
      guard (t.upcoming.kind = .comma) = (guard (s.upcoming.kind = .comma) : Option Unit) := by
    intro s t hs
    rw [hs.upcoming, Token.kind_placed]
  exact (Moves.loop hpick hadd [first]).bind fun read => .pure (by rw [List.map_reverse])

theorem moves_parameters :
    Moves place (List.map (Identifier.placed place)) parameters parameters := by
  have hparameter : Moves place (Identifier.placed place)
      (Identifier.ofToken <$> expect .identifier none)
      (Identifier.ofToken <$> expect .identifier none) := (Moves.expect _ _).map fun _ => rfl
  refine Moves.upcoming.bind fun token => ?_
  rw [Token.kind_placed]
  split
  · exact Moves.advance.bind fun _ => .pure rfl
  · refine hparameter.bind fun first => (moves_items hparameter first).bind fun names => ?_
    exact (Moves.expect _ _).bind fun _ => .pure rfl

theorem moves_arguments (hd : MovesAll place descend descend') :
    Moves place (placedAll place) (arguments descend) (arguments descend') := by
  have hargument : Moves place (Expr.placed place) (do advance; descend .lowest)
      (do advance; descend' .lowest) := Moves.advance.bind fun _ => hd _
  refine Moves.upcoming.bind fun token => ?_
  rw [Token.kind_placed]
  split
  · exact Moves.advance.bind fun _ => .pure rfl
  · refine hargument.bind fun first => (moves_items hargument first).bind fun exprs => ?_
    exact (Moves.expect _ _).bind fun _ => .pure (placedAll_eq_map place exprs)

/-! ## The beginning of an expression -/

theorem moves_integer : Moves place (Expr.placed place) integer integer := by
  refine Moves.current.bind fun token => ?_
  rw [Token.literal_placed]
  split
  · exact .pure rfl
  · exact Moves.reject ⟨token, .outOfRange⟩

theorem moves_prefixed (hd : MovesAll place descend descend') :
    Moves place (Expr.placed place) (prefixed descend) (prefixed descend') := by
  refine Moves.within _ _ (Moves.current.bind fun token => ?_)
  rw [Token.kind_placed]
  split
  · exact .throw _
  · exact Moves.advance.bind fun _ => (hd _).bind fun right => .pure rfl

theorem moves_grouped (hd : MovesAll place descend descend') :
    Moves place (Expr.placed place) (grouped descend) (grouped descend') := by
  refine Moves.advance.bind fun _ => (hd _).bind fun expr => ?_
  exact (Moves.expect _ _).bind fun _ => .pure rfl

theorem moves_conditional (hd : MovesAll place descend descend') :
    Moves place (Expr.placed place) (conditional descend) (conditional descend') := by
  refine Moves.within _ _ (Moves.current.bind fun token => (Moves.expect _ _).bind fun _ => ?_)
  refine Moves.advance.bind fun _ => (hd _).bind fun condition => ?_
  refine (Moves.expect _ _).bind fun _ => (Moves.expect _ _).bind fun _ => ?_
  refine (moves_block hd).bind fun consequence => Moves.upcoming.bind fun other => ?_
  rw [Token.kind_placed]
  split
  · refine Moves.advance.bind fun _ => (Moves.expect _ _).bind fun _ => ?_
    exact (moves_block hd).bind fun alternative => .pure rfl
  · exact .pure rfl

theorem moves_function (hd : MovesAll place descend descend') :
    Moves place (Expr.placed place) (function descend) (function descend') := by
  refine Moves.within _ _ (Moves.current.bind fun token => (Moves.expect _ _).bind fun _ => ?_)
  refine moves_parameters.bind fun names => (Moves.expect _ _).bind fun _ => ?_
  exact (moves_block hd).bind fun body => .pure rfl

theorem moves_opening (hd : MovesAll place descend descend') (opening : Opening) :
    Moves place (Expr.placed place) (opening.rule descend) (opening.rule descend') := by
  cases opening with
  | identifier => exact Moves.current.bind fun token => .pure rfl
  | integer => exact moves_integer
  | boolean => exact Moves.current.bind fun token => .pure rfl
  | prefixed => exact moves_prefixed hd
  | grouped => exact moves_grouped hd
  | conditional => exact moves_conditional hd
  | function => exact moves_function hd

/-! ## Whole expressions and programs -/

theorem moves_extend (hd : MovesAll place descend descend') (continuation : Continuation)
    (left : Expr) : Moves place (Expr.placed place) (extend descend continuation left)
      (extend descend' continuation (left.placed place)) := by
  refine Moves.advance.bind fun _ => ?_
  cases continuation with
  | infixed =>
      refine Moves.within _ _ (Moves.current.bind fun token => ?_)
      rw [Token.kind_placed]
      split
      · exact .throw _
      · exact Moves.advance.bind fun _ => (hd _).bind fun right => .pure rfl
  | call =>
      refine Moves.within _ _ (Moves.current.bind fun token => ?_)
      exact (moves_arguments hd).bind fun args => .pure rfl

theorem State.Moves.continuation? {s t : State} (h : s.Moves place t) (limit : Precedence) :
    Parser.continuation? limit t = Parser.continuation? limit s := by
  rw [Parser.continuation?, Parser.continuation?, h.upcoming, Token.kind_placed]

theorem moves_expressionStep (hd : MovesAll place descend descend') :
    MovesAll place (expressionStep descend) (expressionStep descend') := by
  intro limit
  refine Moves.current.bind fun first => Moves.within _ _ ?_
  rw [Token.kind_placed]
  split
  · exact Moves.reject ⟨first, .cannotStart⟩
  · refine (moves_opening hd _).bind fun left => ?_
    exact Moves.loop (fun _ _ hs => hs.continuation? limit) (moves_extend hd) left

/-- A larger bound on the depth makes no difference. -/
theorem moves_expression : {depth depth' : Nat} → depth ≤ depth' →
    MovesAll place (expression depth) (expression depth')
  | 0, _, _ => fun _ => .exhausted _
  | _ + 1, _ + 1, h =>
      fun limit => moves_expressionStep (moves_expression (Nat.le_of_succ_le_succ h)) limit

theorem moves_program {depth depth' : Nat} (h : depth ≤ depth') :
    Moves place (Program.placed place) (program depth) (program depth') :=
  Moves.within _ _ ((moves_statements (moves_expression h) _).bind fun _ => .pure rfl)

end ClosureLang.Parser
