import ClosureLang.Proofs.Advancing.Lemmas.Agreeing
import ClosureLang.Proofs.Grammar.Theorems
import ClosureLang.Proofs.Sessions.Lemmas.Behind

/-!
# Parsing moves forward and comes to an end

No rule goes back, every round of a loop uses up a token, and so does every way from an expression
to one inside it.
-/

namespace ClosureLang.Parser

variable {α β : Type} {depth n : Nat} {s : State} {limit : Precedence}

/-! ## Rules -/

/-- With itself the parser for expressions agrees everywhere. -/
theorem agree_itself : (depth : Nat) → (limit : Precedence) →
    Agree (fun _ => True) (expression depth limit) (expression depth limit)
  | 0, _ => .throw _
  | depth + 1, limit => fun _ _ =>
      together_expressionStep lasting_true (agree_itself depth) (fun _ => trivial) limit

/-- No rule goes back, from whatever state and with whatever result. -/
theorem Rule.leads {p : Parser α} (h : Rule depth α p) (s : State) : s.Leads (stateOf (p s)) := by
  have hP := lasting_true
  have hd := agree_itself depth
  suffices htogether : Together s p p from htogether.leads
  cases h with
  | program =>
      exact Agree.within hP _ ((agree_statements hP hd _).bind hP fun _ => .pure _) s trivial
  | statements stops => exact agree_statements hP hd stops s trivial
  | statement => exact agree_statement hP hd s trivial
  | letStatement => exact agree_letStatement hP hd s trivial
  | returnStatement => exact agree_returnStatement hP hd s trivial
  | expressionStatement => exact agree_expressionStatement hP hd s trivial
  | block => exact agree_block hP hd s trivial
  | expression limit => exact hd limit s trivial
  | opening opening => exact agree_opening hP hd opening s trivial
  | parameters => exact agree_parameters hP s trivial
  | arguments => exact agree_arguments hP hd s trivial
  | continuation continuation left => exact agree_continuation hP hd continuation left s trivial

/-! ## Loops -/

theorem length_advance_bind {p : Parser α} (hs : s.Ends) (hk : s.upcoming.kind ≠ .eof)
    (hp : s.advance.Leads (stateOf (p s.advance))) :
    (stateOf ((advance >>= fun _ => p) s)).tokens.length < s.tokens.length :=
  Nat.lt_of_le_of_lt hp.length_le (hs.length_advance_lt_of_upcoming hk)

/-- Whether the statement is read or dropped, the round goes on behind it. -/
theorem exists_addStatement (hs : s.Below depth) (read : List Stmt) : ∃ read' s', s.Leads s' ∧
    addStatement (expression depth) read s = .ok read' s'.advance := by
  have hout := outcome_statement (sound_expression depth) hs
  have hattempt : ∃ stmt? s', s.Leads s' ∧
      attempt (statement (expression depth)) s = .ok stmt? s' := by
    unfold attempt
    generalize statement (expression depth) s = r at hout ⊢
    cases hout with
    | ok hl _ => exact ⟨_, _, hl, rfl⟩
    | dropped hl _ => exact ⟨_, _, hl, rfl⟩
  obtain ⟨stmt?, s', hl, hrun⟩ := hattempt
  exact ⟨_, s', hl, bind_eq hrun⟩

/-- Every round of a loop uses up a token, also the one with which the loop fails. -/
theorem Round.length_lt {pick : State → Option β} {round : β → α → Parser α}
    (h : Round depth α β pick round) (hs : s.Below depth) {b : β} (hpick : pick s = some b)
    (acc : α) :
    (stateOf (round b acc s)).tokens.length < s.tokens.length := by
  cases h with
  | statements stops hstops =>
      have hk : s.current.kind ≠ .eof := fun hk => of_guard_eq_some hpick (hk ▸ hstops)
      obtain ⟨_, s', hl, hrun⟩ := exists_addStatement hs acc
      show (stateOf (addStatement (expression depth) acc s)).tokens.length < _
      rw [hrun]
      exact Nat.lt_of_le_of_lt hl.advance.length_le (hs.toEnds.length_advance_lt hk)
  | continuations limit =>
      exact length_advance_bind hs.toEnds (upcoming_ne_eof_of_continuation? hpick)
        ((Rule.continuation b acc).leads _)
  | parameters =>
      have hk : s.upcoming.kind = .comma := of_guard_eq_some hpick
      have hitem := (Agree.expect lasting_true .identifier none).map lasting_true Identifier.ofToken
      exact length_advance_bind hs.toEnds (hk ▸ by decide)
        ((hitem.bind lasting_true fun _ => .pure _) _ trivial).leads
  | arguments =>
      have hk : s.upcoming.kind = .comma := of_guard_eq_some hpick
      have hitem := Agree.advance.bind lasting_true fun _ => agree_itself depth .lowest
      exact length_advance_bind hs.toEnds (hk ▸ by decide)
        ((hitem.bind lasting_true fun _ => .pure _) _ trivial).leads

/-! ## Expressions inside expressions -/

theorem lasting_below (n : Nat) : Lasting (State.Below n) :=
  fun _ _ hl => hl.below

/-- How expressions are read matters only behind the first token of an expression. -/
theorem expressionStep_eq {descend : Precedence → Parser Expr} (hs : s.Ends)
    (hd : ∀ limit s', s'.Ends → s'.tokens.length < s.tokens.length →
      descend limit s' = expression depth limit s') (limit : Precedence) :
    expressionStep descend limit s = expression (depth + 1) limit s := by
  have hinside (limit : Precedence) :
      Agree (State.Below s.tokens.length) (descend limit) (expression depth limit) :=
    fun s' hs' =>
      ⟨hd limit s' hs'.toEnds hs'.length_lt, (agree_itself depth limit s' trivial).leads⟩
  refine (together_expressionStep (lasting_below _) hinside (fun hk => ?_) limit).same
  exact ⟨s.advance_leads.ends hs, hs.length_advance_lt hk⟩

/-- The bound on the depth may be larger. -/
theorem agree_expression_of_le : (n m : Nat) → n ≤ m → (limit : Precedence) →
    Agree (State.Below n) (expression n limit) (expression m limit)
  | 0, _, _, _ => fun _ hs => absurd hs.length_lt (Nat.not_lt_zero _)
  | n + 1, m + 1, hle, limit => fun _ hs =>
      together_expressionStep (lasting_below n)
        (agree_expression_of_le n m (Nat.le_of_succ_le_succ hle)) hs.advance limit

theorem program_eq_of_le {m : Nat} (hle : n ≤ m) (hs : s.Below n) : program n s = program m s := by
  have hstatements := agree_statements (lasting_below n) (agree_expression_of_le n m hle)
    fun kind => kind = .eof
  exact (Agree.within (lasting_below n) .program
    (hstatements.bind (lasting_below n) fun stmts => .pure (Program.mk stmts)) s hs).same

theorem exists_program (hs : s.Below n) :
    ∃ whole s', program n s = .ok whole s' ∧ s'.tokens = [] ∧ s'.finish = s.finish := by
  have hnoted := (s.note_leads (.enter .program)).below hs
  obtain ⟨stmts, s', hrun⟩ : ∃ stmts s', statements (expression n) (fun kind => kind = .eof)
      (s.note (.enter .program)) = .ok stmts s' :=
    exists_statements (sound_expression n) hnoted (by decide)
  have hout := outcome_program hs
  rw [program_of_statements hrun] at hout ⊢
  cases hout with
  | ok hl h => exact ⟨_, _, rfl, h.1, hl.finish⟩

/-! ## Sources -/

/-- Parsing a source comes to its end and to a program, however malformed the source is, and a bound
on the depth that is larger than the number of tokens makes no difference. No rule goes back to an
earlier token, from whatever state and with whatever result. Every round of a loop uses up a token.
And what is done with an expression depends on how the expressions inside it are read only where
there are fewer tokens left. -/
theorem parsing_moves_forward (source : String) :
    (∃ whole s, s.current = endToken source ∧ s.tokens = [] ∧
      ∀ depth, (scan source).length < depth →
        program depth (.ofString source) = .ok whole s) ∧
    (∀ depth α (p : Parser α), Rule depth α p → ∀ s : State, (stateOf (p s)).tokens <:+ s.tokens) ∧
    (∀ depth α β (pick : State → Option β) (round : β → α → Parser α),
      Round depth α β pick round → ∀ (s : State) b acc, s.Below depth → pick s = some b →
        (stateOf (round b acc s)).tokens.length < s.tokens.length) ∧
    ∀ depth (descend : Precedence → Parser Expr) (s : State), s.Ends →
      (∀ limit s', s'.Ends → s'.tokens.length < s.tokens.length →
        descend limit s' = expression depth limit s') →
      ∀ limit, expressionStep descend limit s = expression (depth + 1) limit s := by
  refine ⟨?_, fun _ _ _ h s => (h.leads s).tokens, fun _ _ _ _ _ h s b acc hs hpick =>
    h.length_lt hs hpick acc, fun _ _ _ => expressionStep_eq⟩
  have hbelow : (State.ofString source).Below ((scan source).length + 1) :=
    State.below_ofString source
  obtain ⟨whole, s, hrun, htokens, hfinish⟩ := exists_program hbelow
  refine ⟨whole, s, by rw [State.current, htokens]; exact hfinish, htokens, fun depth hdepth => ?_⟩
  rw [← hrun, program_eq_of_le hdepth hbelow]

/-- An unclosed call. Wherever no token has been used up, expressions are not even read. -/
theorem unclosed_call_moves_forward :
    let s := State.ofString "f(1, -x"
    (stateOf (addStatement (expression 7) [] s)).tokens.length < s.tokens.length ∧
      expressionStep (fun limit s' =>
        if s'.tokens.length < s.tokens.length then expression 6 limit s'
        else .error .exhausted s') .lowest s = expression 7 .lowest s := by
  obtain ⟨-, -, hrounds, hinside⟩ := parsing_moves_forward "f(1, -x"
  have hbelow := State.below_ofString "f(1, -x"
  have hlength : (State.ofString "f(1, -x").tokens.length + 1 = 7 := by decide +kernel
  rw [hlength] at hbelow
  refine ⟨?_, hinside 6 _ _ hbelow.toEnds (fun limit s' _ hlt => ?_) .lowest⟩
  · exact hrounds 7 _ _ _ _ (.statements (fun kind => kind = .eof) (by decide)) _ () [] hbelow
      (by decide +kernel)
  · simp only [if_pos hlt]

end ClosureLang.Parser
