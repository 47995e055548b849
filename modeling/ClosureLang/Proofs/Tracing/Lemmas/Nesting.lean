import ClosureLang.Proofs.Grammar.Lemmas.Outcomes
import ClosureLang.Proofs.Tracing.Nested

/-!
# Parsers with nested traces

Whether a parser succeeds or fails, and whatever it starts from, it leaves all rules that it enters.
One lemma for each step that parsers are put together from, and then one for each rule. The rules
are taken with any way to read the expressions inside them for which the same is true.
-/

namespace ClosureLang.Parser

variable {α β : Type} {s s' s'' : State}

/-! ## Steps -/

/-- What is on the trace of `s'` and not on that of `s` is nested. -/
def State.Nests (s s' : State) : Prop :=
  ∃ events, ClosureLang.Nests events ∧ s'.trace = events.reverse ++ s.trace

namespace State.Nests

theorem of_eq (h : s'.trace = s.trace) : s.Nests s' :=
  ⟨[], .nil, h⟩

theorem trans (h : s.Nests s') (h' : s'.Nests s'') : s.Nests s'' := by
  obtain ⟨events, hevents, htrace⟩ := h
  obtain ⟨more, hmore, htrace'⟩ := h'
  refine ⟨events ++ more, hevents.append hmore, ?_⟩
  rw [htrace', htrace, List.reverse_append, List.append_assoc]

theorem around {activity : Activity} (h : (s.note (.enter activity)).Nests s') :
    s.Nests (s'.note (.leave activity)) := by
  obtain ⟨events, hevents, htrace⟩ := h
  refine ⟨_, hevents.around activity, ?_⟩
  rw [State.note, htrace]
  simp [State.note]

end State.Nests

/-- What a run from `s` may come to that leaves all rules that it enters. -/
inductive LeavesAll (s : State) : EStateM.Result Failure State α → Prop
  | ok {a : α} {s' : State} : s.Nests s' → LeavesAll s (.ok a s')
  | error {failure : Failure} {s' : State} : s.Nests s' → LeavesAll s (.error failure s')

theorem LeavesAll.after {r : EStateM.Result Failure State α} (hs : s.Nests s')
    (h : LeavesAll s' r) : LeavesAll s r := by
  cases h with
  | ok h => exact .ok (hs.trans h)
  | error h => exact .error (hs.trans h)

/-- From any state. -/
def Tidy (p : Parser α) : Prop :=
  ∀ s, LeavesAll s (p s)

namespace Tidy

theorem pure (a : α) : Tidy (Pure.pure a) :=
  fun _ => .ok (.of_eq rfl)

theorem throw (failure : Failure) : Tidy (MonadExcept.throw failure : Parser α) :=
  fun _ => .error (.of_eq rfl)

theorem current : Tidy Parser.current :=
  fun _ => .ok (.of_eq rfl)

theorem upcoming : Tidy Parser.upcoming :=
  fun _ => .ok (.of_eq rfl)

theorem advance : Tidy Parser.advance :=
  fun _ => .ok (.of_eq rfl)

theorem reject (error : SyntaxError) : Tidy (Parser.reject error : Parser α) :=
  fun _ => .error (.of_eq rfl)

theorem get : Tidy (MonadState.get : Parser State) :=
  fun _ => .ok (.of_eq rfl)

variable {p : Parser α}

theorem bind {f : α → Parser β} (hp : Tidy p) (hf : ∀ a, Tidy (f a)) : Tidy (p >>= f) := by
  intro s
  have hrun := hp s
  simp only [Bind.bind, EStateM.bind]
  generalize p s = r at hrun ⊢
  cases hrun with
  | ok h => exact (hf _ _).after h
  | error h => exact .error h

theorem map (f : α → β) (hp : Tidy p) : Tidy (f <$> p) := by
  rw [map_eq_pure_bind]
  exact hp.bind fun a => pure (f a)

theorem expect (wanted : Kind) (hint : Option Hint) : Tidy (Parser.expect wanted hint) := by
  refine upcoming.bind fun token => ?_
  split
  · exact advance.bind fun _ => pure token
  · exact reject _

theorem within (activity : Activity) (hp : Tidy p) : Tidy (Parser.within activity p) := by
  intro s
  have hrun := hp (s.note (.enter activity))
  unfold Parser.within
  generalize p (s.note (.enter activity)) = r at hrun ⊢
  cases hrun with
  | ok h => exact .ok h.around
  | error h => exact .error h.around

theorem attempt (hp : Tidy p) : Tidy (Parser.attempt p) := by
  intro s
  have hrun := hp s
  unfold Parser.attempt
  generalize p s = r at hrun ⊢
  cases hrun with
  | ok h => exact .ok h
  | @error failure _ h =>
      cases failure with
      | dropped => exact .ok h
      | exhausted => exact .error h

theorem rounds {pick : State → Option β} {round : β → α → Parser α}
    (hround : ∀ b acc, Tidy (round b acc)) (left : List Token) (acc : α) :
    Tidy (Parser.rounds pick round left acc) := by
  induction left generalizing acc with
  | nil =>
      refine get.bind fun s => ?_
      split
      · exact pure acc
      · exact throw _
  | cons token left ih =>
      refine get.bind fun s => ?_
      split
      · exact pure acc
      · exact (hround _ acc).bind ih

theorem loop {pick : State → Option β} {round : β → α → Parser α}
    (hround : ∀ b acc, Tidy (round b acc)) (acc : α) : Tidy (Parser.loop pick round acc) :=
  get.bind fun s => rounds hround s.tokens acc

/-- A run inside a rule leaves a tree on an empty trace. -/
theorem isTree (hp : Tidy p) {activity : Activity} {a : α} {s s' : State} (hs : s.trace = [])
    (hrun : Parser.within activity p s = .ok a s') : IsTree activity s'.trace.reverse := by
  have hinside := hp (s.note (.enter activity))
  unfold Parser.within at hrun
  generalize p (s.note (.enter activity)) = r at hrun hinside
  cases hinside with
  | error => cases hrun
  | ok h =>
      cases hrun
      obtain ⟨events, hevents, htrace⟩ := h
      refine ⟨events, ?_, hevents []⟩
      simp [State.note, htrace, hs]

end Tidy

/-! ## Rules -/

theorem tidy_optionalSemicolon : Tidy optionalSemicolon := by
  refine Tidy.upcoming.bind fun token => ?_
  split
  · exact .advance
  · exact .pure ()

theorem tidy_ending {value : Parser Expr} (hvalue : Tidy value) (f : Expr → Stmt) :
    Tidy (do let expr ← value; optionalSemicolon; return f expr) :=
  hvalue.bind fun expr => tidy_optionalSemicolon.bind fun _ => .pure (f expr)

/-- The items in parentheses, if there are any. -/
theorem tidy_closedItems {item : Parser α} (hitem : Tidy item) (hint : Option Hint) :
    Tidy (do
      if (← upcoming).kind = .rightParen then
        advance
        return []
      else
        let all ← items item (← item)
        let _ ← expect .rightParen hint
        return all) := by
  have hadd (read : List α) : Tidy (addItem item read) :=
    Tidy.advance.bind fun _ => hitem.bind fun a => .pure (a :: read)
  refine Tidy.upcoming.bind fun token => ?_
  split
  · exact Tidy.advance.bind fun _ => .pure []
  · refine hitem.bind fun first => ?_
    have hitems : Tidy (items item first) :=
      (Tidy.loop (fun _ => hadd) [first]).bind fun read => .pure read.reverse
    exact hitems.bind fun all => (Tidy.expect _ _).bind fun _ => .pure all

theorem tidy_parameters : Tidy parameters :=
  tidy_closedItems (.map _ (.expect _ _)) none

theorem tidy_integer : Tidy integer := by
  refine Tidy.current.bind fun token => ?_
  split
  · exact .pure _
  · exact .reject _

section

variable {descend : Precedence → Parser Expr} (hd : ∀ limit, Tidy (descend limit))

include hd

theorem tidy_arguments : Tidy (arguments descend) :=
  tidy_closedItems (Tidy.advance.bind fun _ => hd _) _

theorem tidy_statement : Tidy (statement descend) := by
  refine Tidy.current.bind fun token => ?_
  split
  · refine .within _ (Tidy.current.bind fun token => (Tidy.expect _ _).bind fun name => ?_)
    exact (Tidy.expect _ _).bind fun _ => Tidy.advance.bind fun _ => tidy_ending (hd _) _
  · exact .within _ (Tidy.current.bind fun token => Tidy.advance.bind fun _ => tidy_ending (hd _) _)
  · exact .within _ (Tidy.current.bind fun token => tidy_ending (hd _) _)

theorem tidy_statements (stops : Kind → Bool) : Tidy (statements descend stops) := by
  have hadd (read : List Stmt) : Tidy (addStatement descend read) :=
    (tidy_statement hd).attempt.bind fun stmt? => Tidy.advance.bind fun _ => .pure _
  exact (Tidy.loop (fun _ => hadd) []).bind fun read => .pure read.reverse

theorem tidy_block : Tidy (block descend) := by
  refine .within _ (Tidy.current.bind fun token => Tidy.advance.bind fun _ => ?_)
  refine (tidy_statements hd _).bind fun stmts => Tidy.current.bind fun last => ?_
  split
  · exact .reject _
  · exact .pure _

theorem tidy_conditional : Tidy (conditional descend) := by
  refine .within _ (Tidy.current.bind fun token => (Tidy.expect _ _).bind fun _ => ?_)
  refine Tidy.advance.bind fun _ => (hd _).bind fun condition => ?_
  refine (Tidy.expect _ _).bind fun _ => (Tidy.expect _ _).bind fun _ => ?_
  refine (tidy_block hd).bind fun consequence => Tidy.upcoming.bind fun other => ?_
  split
  · refine Tidy.advance.bind fun _ => (Tidy.expect _ _).bind fun _ => ?_
    exact (tidy_block hd).bind fun alternative => .pure _
  · exact .pure _

theorem tidy_function : Tidy (function descend) := by
  refine .within _ (Tidy.current.bind fun token => (Tidy.expect _ _).bind fun _ => ?_)
  refine tidy_parameters.bind fun names => (Tidy.expect _ _).bind fun _ => ?_
  exact (tidy_block hd).bind fun body => .pure _

theorem tidy_opening (opening : Opening) : Tidy (opening.rule descend) := by
  cases opening with
  | identifier => exact Tidy.current.bind fun token => .pure _
  | integer => exact tidy_integer
  | boolean => exact Tidy.current.bind fun token => .pure _
  | prefixed =>
      refine .within _ (Tidy.current.bind fun token => ?_)
      split
      · exact .throw _
      · exact Tidy.advance.bind fun _ => (hd _).bind fun right => .pure _
  | grouped =>
      exact Tidy.advance.bind fun _ => (hd _).bind fun expr =>
        (Tidy.expect _ _).bind fun _ => .pure expr
  | conditional => exact tidy_conditional hd
  | function => exact tidy_function hd

theorem tidy_extend (continuation : Continuation) (left : Expr) :
    Tidy (extend descend continuation left) := by
  refine Tidy.advance.bind fun _ => ?_
  cases continuation with
  | infixed =>
      refine .within _ (Tidy.current.bind fun token => ?_)
      split
      · exact .throw _
      · exact Tidy.advance.bind fun _ => (hd _).bind fun right => .pure _
  | call =>
      refine .within _ (Tidy.current.bind fun token => ?_)
      exact (tidy_arguments hd).bind fun arguments => .pure _

theorem tidy_expressionStep (limit : Precedence) : Tidy (expressionStep descend limit) := by
  refine Tidy.current.bind fun first => .within _ ?_
  split
  · exact .reject _
  · exact (tidy_opening hd _).bind fun left => .loop (tidy_extend hd) left

end

/-- For any depth. -/
theorem tidy_expression (depth : Nat) (limit : Precedence) : Tidy (expression depth limit) := by
  induction depth generalizing limit with
  | zero => exact .throw _
  | succ depth ih => exact tidy_expressionStep ih limit

end ClosureLang.Parser
