import ClosureLang.Proofs.Grammar.Lemmas.Completeness
import ClosureLang.Proofs.Grammar.Lemmas.Soundness
import ClosureLang.Proofs.Placing.Lemmas.Parsing
import ClosureLang.Proofs.Rendering.Lemmas.Counting

/-!
# Tokens behind a semicolon

A list of statements that ends with a semicolon is read up to it, whatever stands behind. From there
on the parser does what it does at the beginning of a source.
-/

namespace ClosureLang

open Grammar

theorem isEnded_of_getLast? {tokens : List Token} {last : Token} (h : tokens.getLast? = some last)
    (behind : Bool) : isEnded behind (kindsOf tokens) = last.kind.isEnd := by
  obtain ⟨front, rfl⟩ := List.getLast?_eq_some_iff.mp h
  rw [kindsOf_append, isEnded_append]
  rfl

/-- The semicolon that ends a statement is not a part of it. -/
theorem Grammar.Statement.last_ne_semicolon {tokens : List Token} {stmt : Stmt}
    (h : Statement tokens stmt) : ∃ last, tokens.getLast? = some last ∧ last.kind ≠ .semicolon := by
  have hended : isEnded false (kindsOf tokens) = true := by
    cases h with
    | letStmt _ _ _ h | returnStmt _ h | exprStmt h => exact isEnded_expression h _
  cases hlast : tokens.getLast? with
  | none =>
      rw [List.getLast?_eq_none_iff.mp hlast] at hended
      cases hended
  | some last =>
      rw [isEnded_of_getLast? hlast] at hended
      refine ⟨last, rfl, fun hk => ?_⟩
      rw [hk] at hended
      cases hended

namespace Parser

variable {α β : Type} {n : Nat} {s s' t : State} {place : Token → Span}
  {descend descend' : Precedence → Parser Expr} {stops : Kind → Bool} {tokens : List Token}
  {stmts more : List Stmt}

/-! ## Statements are not dropped -/

/-- A parser that drops nothing. It may still run out of depth or rounds. -/
def Keeps (p : Parser α) : Prop :=
  ∀ s s', p s ≠ .error .dropped s'

theorem Keeps.pure (a : α) : Keeps (Pure.pure a) := by
  intro s s' h
  cases h

theorem Keeps.advance : Keeps Parser.advance := by
  intro s s' h
  cases h

theorem Keeps.bind {p : Parser α} {f : α → Parser β} (hp : Keeps p) (hf : ∀ a, Keeps (f a)) :
    Keeps (p >>= f) := by
  intro s s' h
  simp only [Bind.bind, EStateM.bind] at h
  cases hrun : p s with
  | ok a s₁ =>
      rw [hrun] at h
      exact hf a s₁ s' h
  | error failure s₁ =>
      rw [hrun] at h
      cases h
      exact hp s s' hrun

theorem Keeps.attempt (p : Parser α) : Keeps (attempt p) := by
  intro s s' h
  rw [Parser.attempt] at h
  cases hrun : p s with
  | ok a s₁ =>
      rw [hrun] at h
      cases h
  | error failure s₁ =>
      rw [hrun] at h
      cases failure <;> cases h

theorem Keeps.rounds {pick : State → Option β} {round : β → α → Parser α}
    (hround : ∀ b a, Keeps (round b a)) (left : List Token) (a : α) :
    Keeps (rounds pick round left a) := by
  induction left generalizing a with
  | nil =>
      intro s s' h
      rw [Parser.rounds, get_bind] at h
      cases hpick : pick s <;> rw [hpick] at h <;> cases h
  | cons token left ih =>
      intro s s' h
      cases hpick : pick s with
      | none =>
          rw [rounds_of_none hpick] at h
          cases h
      | some b =>
          rw [rounds_of_some hpick] at h
          exact (hround b a).bind ih s s' h

/-- A statement that is dropped is only left out of the list. -/
theorem keeps_statements (descend : Precedence → Parser Expr) (stops : Kind → Bool) :
    Keeps (statements descend stops) := by
  have hadd (_ : Unit) (read : List Stmt) : Keeps (addStatement descend read) :=
    (Keeps.attempt _).bind fun _ => Keeps.advance.bind fun _ => .pure _
  exact fun s => (Keeps.rounds hadd s.tokens []).bind (fun read => .pure read.reverse) s

theorem exists_statements (hd : Sound n descend) (hs : s.Below n) (hstops : stops .eof = true) :
    ∃ stmts s', statements descend stops s = .ok stmts s' := by
  have hout := outcome_statements hd hs hstops
  cases hrun : statements descend stops s with
  | ok stmts s' => exact ⟨stmts, s', rfl⟩
  | error failure s' =>
      rw [hrun] at hout
      cases hout with
      | dropped _ _ => exact absurd hrun (keeps_statements descend stops s s')

theorem statements_eq_bind (descend : Precedence → Parser Expr) (stops : Kind → Bool) (s : State) :
    statements descend stops s =
      (rounds (fun s => guard (¬ stops s.current.kind)) (fun _ => addStatement descend) s.tokens []
        >>= fun read => pure read.reverse) s :=
  rfl

/-! ## Statements behind others -/

theorem bind_eq_bind {p q : Parser α} (h : p t = q s) (f : α → Parser β) :
    (p >>= f) t = (q >>= f) s := by
  simp only [Bind.bind, EStateM.bind, h]

/-- Behind statements of which the last one has its semicolon, statements are read as they are where
nothing is in front of them. -/
theorem statements_behind (hmoves : MovesAll place descend descend') (hd : Complete n descend')
    (hstops : ∀ kind, stops kind = true → kind = .rightBrace ∨ kind = .eof)
    (h : Statements tokens stmts) (hlast : ∀ token ∈ tokens.getLast?, token.kind = .semicolon)
    (hn : tokens.length ≤ n) (ht : t.tokens = tokens ++ s.tokens.map (Token.placed place))
    (hfinish : t.finish = s.finish.placed place)
    (herrors : t.errors = s.errors.map (SyntaxError.placed place))
    (hrun : statements descend stops s = .ok more s') :
    ∃ t', statements descend' stops t = .ok (stmts ++ more.map (Stmt.placed place)) t' ∧
      s'.Moves place t' := by
  have hend : ∀ front last stmt, tokens = front ++ last → Statement last stmt →
      pull t (s.tokens.map (Token.placed place)) = 0 ∧
        ((s.tokens.map (Token.placed place)).headD t.finish).kind ≠ .semicolon := by
    rintro front last stmt rfl hstmt
    obtain ⟨token, htoken, hne⟩ := hstmt.last_ne_semicolon
    exact absurd (hlast token (List.mem_getLast?_append_of_mem_getLast? htoken)) hne
  obtain ⟨k, hk, t₁, hpast, hsilent, ht₁⟩ :=
    rounds_past hd hstops h hn t.tokens [] t ht (by simp [ht]) hend
  have hmoved : s.Moves place t₁ :=
    ⟨ht₁, hsilent.finish.trans hfinish, hsilent.errors.trans herrors⟩
  have hlength : s.tokens.length ≤ (t.tokens.drop k).length := by
    rw [List.length_drop, ht, List.length_append, List.length_map]
    omega
  rw [List.append_nil] at hpast
  have hreturn (read : List Stmt) : Moves place (fun more => stmts ++ more.map (Stmt.placed place))
      (pure read.reverse) (pure (read.map (Stmt.placed place) ++ stmts.reverse).reverse) :=
    .pure (by simp)
  have hrounds := Moves.rounds (fun s t hs => hs.guard_eq stops)
    (fun _ => moves_addStatement hmoves stmts.reverse) s.tokens _ hlength []
  have hrest := hrounds.bind (f := fun read => pure read.reverse)
    (g := fun read => pure read.reverse) hreturn s t₁ hmoved
  rw [← statements_eq_bind, hrun] at hrest
  rcases hrest with ⟨_, hexhausted⟩ | hrest
  · cases hexhausted
  · obtain ⟨t', ht', hmoved'⟩ := hrest.exists_ok
    refine ⟨t', ?_, hmoved'⟩
    rw [statements_eq_bind]
    exact (bind_eq_bind hpast _).trans ht'

end Parser

end ClosureLang
