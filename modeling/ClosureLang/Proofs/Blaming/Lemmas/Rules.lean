import ClosureLang.Proofs.Blaming.Lemmas.Steps

/-!
# The room that the rules use up

One lemma for each rule, from the room at its first token to the room behind its last one. The rules
are taken with any way to read the expressions inside them for which the same is true.
-/

namespace ClosureLang.Parser

open Room

variable {α : Type} {s s' : State}

theorem blames_optionalSemicolon : Blames inside inside optionalSemicolon := by
  refine Blames.upcoming.bind fun token => ?_
  split
  · exact Blames.advance.imp (.refl _) inside_within_opening
  · exact .pure (.refl _) _

theorem blames_ending {value : Parser Expr} (hvalue : Blames opening inside value)
    (f : Expr → Stmt) :
    Blames opening inside (do let expr ← value; optionalSemicolon; return f expr) :=
  hvalue.bind fun _ => blames_optionalSemicolon.bind fun _ => .pure (.refl _) _

/-! ## Lists of items -/

theorem blames_items {item : Parser α} (hitem : Blames inside inside item) (first : α) :
    Blames inside inside (items item first) := by
  have hadd (read : List α) : Blames inside inside (addItem item read) :=
    (Blames.advance.imp (.refl _) inside_within_opening).bind fun _ =>
      hitem.bind fun _ => .pure (.refl _) _
  exact (Blames.loop (fun _ read s hs _ => hadd read s hs) _).bind fun _ => .pure (.refl _) _

/-- The items in parentheses, if there are any. -/
theorem blames_closedItems {item : Parser α} (hitem : Blames inside inside item)
    (hint : Option Hint) :
    Blames inside inside (do
      if (← upcoming).kind = .rightParen then
        advance
        return []
      else
        let all ← items item (← item)
        let _ ← expect .rightParen hint
        return all) := by
  refine Blames.upcoming.bind fun token => ?_
  split
  · exact Blames.advance.bind fun _ => .pure inside_within_opening _
  · refine hitem.bind fun first => (blames_items hitem first).bind fun all => ?_
    exact (Blames.expect _ _).bind fun _ => .pure (.refl _) _

theorem blames_parameters : Blames inside inside parameters :=
  blames_closedItems (.map _ (.expect _ _)) none

section

variable {descend : Precedence → Parser Expr} (hd : ∀ limit, Blames opening inside (descend limit))

include hd

theorem blames_arguments : Blames inside inside (arguments descend) :=
  blames_closedItems (Blames.advance.bind fun _ => hd _) _

/-! ## Statements -/

theorem blames_letStatement : Blames opening inside (letStatement descend) := by
  refine .within _ (Blames.current.bind fun token => ?_)
  refine ((Blames.expect _ _).imp inside_within_opening (.refl _)).bind fun name => ?_
  refine (Blames.expect _ _).bind fun _ => Blames.advance.bind fun _ => ?_
  exact blames_ending (hd _) _

theorem blames_returnStatement : Blames opening inside (returnStatement descend) := by
  refine .within _ (Blames.current.bind fun token => ?_)
  refine (Blames.advance.imp inside_within_opening (.refl _)).bind fun _ => ?_
  exact blames_ending (hd _) _

theorem blames_statement : Blames opening inside (statement descend) := by
  refine Blames.current.bind fun token => ?_
  split
  · exact blames_letStatement hd
  · exact blames_returnStatement hd
  · exact .within _ (Blames.current.bind fun _ => blames_ending (hd _) _)

/-- Behind a statement that is dropped the next one begins. -/
theorem spends_addStatement (hs : s.Ends) (hk : s.current.kind ≠ .eof) (read : List Stmt) :
    Spends between between s (addStatement descend read s) := by
  have hadvance : Blames dropped between advance :=
    fun s _ => .ok s.advance_leads (.none rfl (.refl _))
  have hadd : Blames opening between (addStatement descend read) :=
    (blames_statement hd).attempt.bind fun _ => hadvance.bind fun _ => .pure (.refl _) _
  have hbegin : s.Uses between opening s := by
    refine .none rfl ?_
    rw [hs.tokens_eq_cons hk]
    exact .refl _
  exact (hadd s hs).after (.refl s) hbegin

theorem blames_statements (stops : Kind → Bool) (hstops : stops .eof = true) :
    Blames between between (statements descend stops) := by
  refine (Blames.loop (fun _ read s hs hpick => ?_) []).bind fun read => .pure (.refl _) _
  have hk : s.current.kind ≠ .eof := fun hk => of_guard_eq_some hpick (hk ▸ hstops)
  exact spends_addStatement hd hs hk read

omit hd in
/-- Behind an opening brace there is the room for statements, and a slot for the end of the source
inside the block. -/
theorem uses_unclosed (hs : s.Ends) (hk : s.current.kind = .leftBrace) (hl : s.advance.Leads s')
    (hu : s.advance.Uses between between s') (heof : s'.current.kind = .eof) :
    s.Uses opening dropped (s'.record ⟨s'.current, .unclosed s.current⟩) := by
  have hnil : s'.tokens = [] := (hl.ends (s.advance_leads.ends hs)).tokens_eq_nil heof
  have hfinish : s'.current = s.finish := by rw [State.current, hnil]; exact hl.finish
  obtain ⟨errors, herrors, hfills⟩ := hu
  refine ⟨errors ++ [⟨s'.current, .unclosed s.current⟩], ?_, fun more hmore => ?_⟩
  · rw [List.reverse_append, State.record, herrors]
    rfl
  · have hmore : Fills more (between s'.finish s'.tokens.tail) := hmore
    rw [hnil] at hmore
    have hspare : Fills [⟨s'.current, .unclosed s.current⟩] (spare s.finish s.current) := by
      rw [spare, if_pos hk]
      exact (Fills.nil _).cons ⟨hfinish, trivial⟩
    have hinner := hfills [] (.nil _)
    rw [List.append_nil] at hinner
    have hroom : (between s.finish s.tokens.tail ++ spare s.finish s.current ++ []).Sublist
        (opening s.finish s.tokens) := by
      rw [hs.tokens_eq_cons (hk ▸ by decide), List.append_nil]
      have hinside := between_sublist_ahead s.finish s.tokens.tail
      exact (hinside.append (.refl _)).trans (List.sublist_cons_self _ _)
    exact ((hinner.append hspare).append hmore).mono hroom

theorem spends_block (hs : s.Ends) (hk : s.current.kind = .leftBrace) :
    Spends opening inside s (block descend s) := by
  refine Spends.within ?_
  replace hs := (s.note_leads (.enter .block)).ends hs
  replace hk : (s.note (.enter .block)).current.kind = .leftBrace := hk
  generalize s.note (.enter .block) = s at hs hk ⊢
  -- The opening brace is kept for an error that blames it once the source is over; the statements
  -- spend what is behind it only.
  have hbody := blames_statements hd (fun kind => kind = .rightBrace ∨ kind = .eof) (by decide)
    s.advance (s.advance_leads.ends hs)
  have hbegin : s.Uses opening between s.advance :=
    .none rfl ((between_sublist_ahead _ _).trans (inside_within_opening s.finish s.tokens))
  rw [current_bind, advance_bind]
  cases hrun : statements descend (fun kind => kind = .rightBrace ∨ kind = .eof) s.advance with
  | error failure s₁ =>
      rw [bind_eq_error hrun]
      rw [hrun] at hbody
      cases hbody with
      | dropped hl hu => exact .dropped (s.advance_leads.trans hl) (hbegin.trans hu)
      | exhausted => exact .exhausted
  | ok stmts s₁ =>
      rw [bind_eq hrun, current_bind]
      rw [hrun] at hbody
      obtain ⟨hl, hu⟩ := hbody.of_ok
      split
      · next heof =>
        exact .dropped ((s.advance_leads.trans hl).trans (s₁.record_leads _))
          (uses_unclosed hs hk hl hu heof)
      · next hne =>
        refine .ok (s.advance_leads.trans hl) (hbegin.trans (hu.trans (.none rfl ?_)))
        rw [(hl.ends (s.advance_leads.ends hs)).tokens_eq_cons hne]
        exact inside_within_opening _ (_ :: _)

/-- Blocks are read behind an opening brace only. -/
theorem blames_expectBlock {β : Type} {R : Room} (hint : Option Hint) {f : Block → Parser β}
    (hf : ∀ body, Blames inside R (f body)) :
    Blames inside R (do let _ ← expect .leftBrace hint; f (← block descend)) := by
  intro s hs
  by_cases hk : s.upcoming.kind = .leftBrace
  · rw [bind_eq (expect_eq hk)]
    have hs₁ := s.advance_leads.ends hs
    have hblock := (spends_block hd hs₁ hk).bind fun body s' hl => hf body s' (hl.ends hs₁)
    exact hblock.after s.advance_leads (.none rfl (opening_sublist_ahead _ _))
  · have hexpect := Blames.expect .leftBrace hint s hs
    rw [expect_eq_error hk] at hexpect
    rw [bind_eq_error (expect_eq_error hk)]
    cases hexpect with
    | dropped hl hu => exact .dropped hl hu

/-! ## Expressions -/

theorem blames_prefixed : Blames opening inside (prefixed descend) := by
  refine .within _ (Blames.current.bind fun token => ?_)
  split
  · exact .drop (fun _ _ => (dropped_within_inside _ _).trans (inside_within_opening _ _))
  · refine (Blames.advance.imp inside_within_opening (.refl _)).bind fun _ => ?_
    exact (hd _).bind fun _ => .pure (.refl _) _

theorem blames_grouped : Blames opening inside (grouped descend) := by
  refine (Blames.advance.imp inside_within_opening (.refl _)).bind fun _ => ?_
  exact (hd _).bind fun expr => (Blames.expect _ _).bind fun _ => .pure (.refl _) _

theorem blames_conditional : Blames opening inside (conditional descend) := by
  refine .within _ (Blames.current.bind fun token => ?_)
  refine ((Blames.expect _ _).imp inside_within_opening (.refl _)).bind fun _ => ?_
  refine Blames.advance.bind fun _ => (hd _).bind fun condition => ?_
  refine (Blames.expect _ _).bind fun _ => blames_expectBlock hd _ fun consequence => ?_
  refine Blames.upcoming.bind fun other => ?_
  split
  · refine (Blames.advance.imp (.refl _) inside_within_opening).bind fun _ => ?_
    exact blames_expectBlock hd _ fun _ => .pure (.refl _) _
  · exact .pure (.refl _) _

theorem blames_function : Blames opening inside (function descend) := by
  refine .within _ (Blames.current.bind fun token => ?_)
  refine ((Blames.expect _ _).imp inside_within_opening (.refl _)).bind fun _ => ?_
  refine blames_parameters.bind fun names => ?_
  exact blames_expectBlock hd _ fun _ => .pure (.refl _) _

omit hd in
theorem blames_integer : Blames opening inside integer := by
  intro s hs
  rw [integer, current_bind]
  cases Integer.ofDigits? s.current.literal with
  | none => exact spends_reject (.inr rfl)
  | some value => exact Blames.pure inside_within_opening _ s hs

theorem blames_opening (opening : Opening) :
    Blames Room.opening inside (opening.rule descend) := by
  cases opening with
  | identifier => exact Blames.current.bind fun _ => .pure inside_within_opening _
  | integer => exact blames_integer
  | boolean => exact Blames.current.bind fun _ => .pure inside_within_opening _
  | prefixed => exact blames_prefixed hd
  | grouped => exact blames_grouped hd
  | conditional => exact blames_conditional hd
  | function => exact blames_function hd

theorem blames_continuation (continuation : Continuation) (left : Expr) :
    Blames inside inside (continuation.rule descend left) := by
  cases continuation with
  | infixed =>
      refine .within _ (Blames.current.bind fun token => ?_)
      split
      · exact .drop dropped_within_inside
      · exact Blames.advance.bind fun _ => (hd _).bind fun _ => .pure (.refl _) _
  | call =>
      refine .within _ (Blames.current.bind fun token => ?_)
      exact (blames_arguments hd).bind fun _ => .pure (.refl _) _

theorem blames_expressionStep (limit : Precedence) :
    Blames opening inside (expressionStep descend limit) := by
  have hextend (continuation : Continuation) (left : Expr) :
      Blames inside inside (extend descend continuation left) :=
    (Blames.advance.imp (.refl _) inside_within_opening).bind fun _ =>
      blames_continuation hd continuation left
  intro s hs
  rw [expressionStep, current_bind]
  cases Opening.ofKind? s.current.kind with
  | none => exact .within (spends_reject (.inl rfl))
  | some opening =>
      have hloop (left : Expr) :
          Blames inside inside (loop (continuation? limit) (extend descend) left) :=
        .loop (fun continuation left s hs _ => hextend continuation left s hs) left
      exact Blames.within _ ((blames_opening hd opening).bind hloop) s hs

end

theorem blames_expression : (depth : Nat) → (limit : Precedence) →
    Blames opening inside (expression depth limit)
  | 0, _ => fun _ _ => .exhausted
  | depth + 1, limit => blames_expressionStep (blames_expression depth) limit

theorem blames_program (depth : Nat) : Blames between between (program depth) :=
  .within _ ((blames_statements (blames_expression depth) _ (by decide)).bind fun _ =>
    .pure (.refl _) _)

end ClosureLang.Parser
