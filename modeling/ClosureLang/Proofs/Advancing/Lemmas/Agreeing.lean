import ClosureLang.Proofs.Advancing.Rules
import ClosureLang.Proofs.Grammar.Lemmas.Outcomes

/-!
# Rules that agree

Two ways to read the expressions inside a rule make no difference to it if there is none where the
rule reads them. A property of states that stays with a parser on its way forward says where that
is: behind the first token of an expression it is enough that it holds there. One lemma for each
rule.
-/

namespace ClosureLang.Parser

variable {α β : Type} {s s' : State} {P : State → Prop}

/-- From `s` two parsers come to the same, which is not in front of `s`. -/
structure Together (s : State) (p q : Parser α) : Prop where
  same : p s = q s
  leads : s.Leads (stateOf (q s))

theorem Together.of_eq {p q p' q' : Parser α} (h : Together s p q) (hp : p' s = p s)
    (hq : q' s = q s) : Together s p' q' :=
  ⟨by rw [hp, hq, h.same], by rw [hq]; exact h.leads⟩

/-- Two parsers come together wherever `P` holds. -/
def Agree (P : State → Prop) (p q : Parser α) : Prop :=
  ∀ s, P s → Together s p q

/-- What holds of a parser wherever it moves on. -/
def Lasting (P : State → Prop) : Prop :=
  ∀ s s' : State, s.Leads s' → P s → P s'

theorem lasting_true : Lasting fun _ => True :=
  fun _ _ _ => id

/-- `P` holds one token further on. -/
def Ahead (P : State → Prop) (s : State) : Prop :=
  P s.advance

theorem Lasting.ahead (hP : Lasting P) : Lasting (Ahead P) :=
  fun _ _ hl hs => hP _ _ hl.advance hs

/-! ## Steps -/

namespace Agree

variable {p q : Parser α} {f g : α → Parser β}

theorem pure (a : α) : Agree P (Pure.pure a) (Pure.pure a) :=
  fun s _ => ⟨rfl, .refl s⟩

theorem throw (failure : Failure) :
    Agree P (MonadExcept.throw failure : Parser α) (MonadExcept.throw failure) :=
  fun s _ => ⟨rfl, .refl s⟩

theorem current : Agree P Parser.current Parser.current :=
  fun s _ => ⟨rfl, .refl s⟩

theorem upcoming : Agree P Parser.upcoming Parser.upcoming :=
  fun s _ => ⟨rfl, .refl s⟩

theorem advance : Agree P Parser.advance Parser.advance :=
  fun s _ => ⟨rfl, s.advance_leads⟩

theorem reject (error : SyntaxError) :
    Agree P (Parser.reject error : Parser α) (Parser.reject error) :=
  fun s _ => ⟨rfl, s.record_leads error⟩

theorem imp {P' : State → Prop} (h : Agree P p q) (hP : ∀ s, P' s → P s) : Agree P' p q :=
  fun s hs => h s (hP s hs)

theorem bind (hP : Lasting P) (hp : Agree P p q) (hf : ∀ a, Agree P (f a) (g a)) :
    Agree P (p >>= f) (q >>= g) := by
  intro s hs
  obtain ⟨hsame, hleads⟩ := hp s hs
  cases hq : q s with
  | ok a s' =>
      rw [hq] at hsame hleads
      obtain ⟨hsame', hleads'⟩ := hf a s' (hP s s' hleads hs)
      have hfirst : (p >>= f) s = f a s' := bind_eq hsame
      have hsecond : (q >>= g) s = g a s' := bind_eq hq
      exact ⟨by rw [hfirst, hsecond, hsame'], by rw [hsecond]; exact hleads.trans hleads'⟩
  | error failure s' =>
      rw [hq] at hsame hleads
      have hfirst : (p >>= f) s = .error failure s' := bind_eq_error hsame
      have hsecond : (q >>= g) s = .error failure s' := bind_eq_error hq
      exact ⟨by rw [hfirst, hsecond], by rw [hsecond]; exact hleads⟩

/-- Behind a token that is passed over. -/
theorem advance_bind {p q : Unit → Parser β} (h : Agree P (p ()) (q ())) :
    Agree (Ahead P) (Parser.advance >>= p) (Parser.advance >>= q) := by
  intro s hs
  obtain ⟨hsame, hleads⟩ := h _ hs
  exact ⟨hsame, s.advance_leads.trans hleads⟩

/-- Behind the token that is expected. -/
theorem expect_bind {f g : Token → Parser β} {wanted : Kind} {hint : Option Hint}
    (h : ∀ token, Agree P (f token) (g token)) :
    Agree (Ahead P) (Parser.expect wanted hint >>= f) (Parser.expect wanted hint >>= g) := by
  intro s hs
  by_cases hk : s.upcoming.kind = wanted
  · obtain ⟨hsame, hleads⟩ := h s.upcoming _ hs
    have hfirst : (Parser.expect wanted hint >>= f) s = _ := bind_eq (expect_eq hk)
    have hsecond : (Parser.expect wanted hint >>= g) s = _ := bind_eq (expect_eq hk)
    exact ⟨by rw [hfirst, hsecond, hsame], by rw [hsecond]; exact s.advance_leads.trans hleads⟩
  · have hfirst : (Parser.expect wanted hint >>= f) s = _ := bind_eq_error (expect_eq_error hk)
    have hsecond : (Parser.expect wanted hint >>= g) s = _ := bind_eq_error (expect_eq_error hk)
    exact ⟨by rw [hfirst, hsecond], by rw [hsecond]; exact s.record_leads _⟩

theorem expect (hP : Lasting P) (wanted : Kind) (hint : Option Hint) :
    Agree P (Parser.expect wanted hint) (Parser.expect wanted hint) := by
  refine upcoming.bind hP fun token => ?_
  split
  · exact advance.bind hP fun _ => pure _
  · exact reject _

theorem map (hP : Lasting P) (f : α → β) (hp : Agree P p q) : Agree P (f <$> p) (f <$> q) := by
  rw [map_eq_pure_bind, map_eq_pure_bind]
  exact hp.bind hP fun _ => pure _

theorem within (hP : Lasting P) (activity : Activity) (hp : Agree P p q) :
    Agree P (Parser.within activity p) (Parser.within activity q) := by
  intro s hs
  obtain ⟨hsame, hleads⟩ := hp _ (hP _ _ (s.note_leads (.enter activity)) hs)
  have hrun : Parser.within activity p s = Parser.within activity q s := by
    simp only [Parser.within, hsame]
  refine ⟨hrun, ?_⟩
  unfold Parser.within
  generalize q (s.note (.enter activity)) = r at hleads ⊢
  cases r <;> exact hleads.of_note _

theorem attempt (hp : Agree P p q) : Agree P (Parser.attempt p) (Parser.attempt q) := by
  intro s hs
  obtain ⟨hsame, hleads⟩ := hp s hs
  have hrun : Parser.attempt p s = Parser.attempt q s := by simp only [Parser.attempt, hsame]
  refine ⟨hrun, ?_⟩
  unfold Parser.attempt
  generalize q s = r at hleads ⊢
  rcases r with _ | ⟨_ | _⟩ <;> exact hleads

theorem get : Agree P (MonadState.get : Parser State) MonadState.get :=
  fun s _ => ⟨rfl, .refl s⟩

theorem rounds (hP : Lasting P) {pick : State → Option β} {round round' : β → α → Parser α}
    (hround : ∀ b acc, Agree P (round b acc) (round' b acc)) (left : List Token) (acc : α) :
    Agree P (Parser.rounds pick round left acc) (Parser.rounds pick round' left acc) := by
  induction left generalizing acc with
  | nil =>
      refine get.bind hP fun s => ?_
      cases pick s with
      | none => exact pure _
      | some b => exact throw _
  | cons token left ih =>
      refine get.bind hP fun s => ?_
      cases pick s with
      | none => exact pure _
      | some b => exact (hround b acc).bind hP ih

theorem loop (hP : Lasting P) {pick : State → Option β} {round round' : β → α → Parser α}
    (hround : ∀ b acc, Agree P (round b acc) (round' b acc)) (acc : α) :
    Agree P (Parser.loop pick round acc) (Parser.loop pick round' acc) :=
  get.bind hP fun s => rounds hP hround s.tokens acc

end Agree

/-! ## Statements -/

section

variable {descend descend' : Precedence → Parser Expr}

theorem agree_optionalSemicolon (hP : Lasting P) : Agree P optionalSemicolon optionalSemicolon := by
  refine Agree.upcoming.bind hP fun token => ?_
  split
  · exact .advance
  · exact .pure _

theorem agree_ending (hP : Lasting P) {value value' : Parser Expr} (hvalue : Agree P value value')
    (f : Expr → Stmt) :
    Agree P (do let expr ← value; optionalSemicolon; return f expr)
      (do let expr ← value'; optionalSemicolon; return f expr) :=
  hvalue.bind hP fun _ => (agree_optionalSemicolon hP).bind hP fun _ => .pure _

variable (hP : Lasting P) (hd : ∀ limit, Agree P (descend limit) (descend' limit))

include hP hd

theorem agree_letStatement : Agree P (letStatement descend) (letStatement descend') := by
  refine .within hP _ (Agree.current.bind hP fun token => ?_)
  refine (Agree.expect hP _ _).bind hP fun name => (Agree.expect hP _ _).bind hP fun _ => ?_
  exact Agree.advance.bind hP fun _ => agree_ending hP (hd _) _

theorem agree_returnStatement : Agree P (returnStatement descend) (returnStatement descend') := by
  refine .within hP _ (Agree.current.bind hP fun token => ?_)
  exact Agree.advance.bind hP fun _ => agree_ending hP (hd _) _

theorem agree_expressionStatement :
    Agree P (expressionStatement descend) (expressionStatement descend') :=
  .within hP _ (Agree.current.bind hP fun _ => agree_ending hP (hd _) _)

theorem agree_statement : Agree P (statement descend) (statement descend') := by
  refine Agree.current.bind hP fun token => ?_
  split
  · exact agree_letStatement hP hd
  · exact agree_returnStatement hP hd
  · exact agree_expressionStatement hP hd

theorem agree_addStatement (read : List Stmt) :
    Agree P (addStatement descend read) (addStatement descend' read) :=
  (agree_statement hP hd).attempt.bind hP fun _ => Agree.advance.bind hP fun _ => .pure _

theorem agree_statements (stops : Kind → Bool) :
    Agree P (statements descend stops) (statements descend' stops) :=
  (Agree.loop hP (fun _ read => agree_addStatement hP hd read) _).bind hP fun _ => .pure _

theorem agree_block : Agree (Ahead P) (block descend) (block descend') := by
  refine .within hP.ahead _ (Agree.current.bind hP.ahead fun token => Agree.advance_bind ?_)
  refine (agree_statements hP hd _).bind hP fun stmts => Agree.current.bind hP fun last => ?_
  split
  · exact .reject _
  · exact .pure _

/-! ## Lists of items -/

omit hd in
theorem agree_items {item item' : Parser α} (hitem : Agree P item item') (first : α) :
    Agree P (items item first) (items item' first) := by
  have hadd (read : List α) : Agree P (addItem item read) (addItem item' read) :=
    Agree.advance.bind hP fun _ => hitem.bind hP fun _ => .pure _
  exact (Agree.loop hP (fun _ => hadd) _).bind hP fun _ => .pure _

omit hd in
theorem agree_parameters : Agree P parameters parameters := by
  have hparameter : Agree P (Identifier.ofToken <$> expect .identifier none)
      (Identifier.ofToken <$> expect .identifier none) := .map hP _ (.expect hP _ _)
  refine Agree.upcoming.bind hP fun token => ?_
  split
  · exact Agree.advance.bind hP fun _ => .pure _
  · refine hparameter.bind hP fun first => (agree_items hP hparameter first).bind hP fun names => ?_
    exact (Agree.expect hP _ _).bind hP fun _ => .pure _

theorem agree_arguments : Agree P (arguments descend) (arguments descend') := by
  have hargument : Agree P (do advance; descend .lowest) (do advance; descend' .lowest) :=
    Agree.advance.bind hP fun _ => hd _
  refine Agree.upcoming.bind hP fun token => ?_
  split
  · exact Agree.advance.bind hP fun _ => .pure _
  · refine hargument.bind hP fun first => (agree_items hP hargument first).bind hP fun exprs => ?_
    exact (Agree.expect hP _ _).bind hP fun _ => .pure _

/-! ## Expressions -/

omit hd in
theorem agree_integer : Agree P integer integer := by
  refine Agree.current.bind hP fun token => ?_
  split
  · exact .pure _
  · exact .reject _

theorem agree_prefixed : Agree (Ahead P) (prefixed descend) (prefixed descend') := by
  refine .within hP.ahead _ (Agree.current.bind hP.ahead fun token => ?_)
  split
  · exact .throw _
  · exact Agree.advance_bind ((hd _).bind hP fun _ => .pure _)

theorem agree_grouped : Agree (Ahead P) (grouped descend) (grouped descend') := by
  refine Agree.advance_bind ((hd _).bind hP fun expr => ?_)
  exact (Agree.expect hP _ _).bind hP fun _ => .pure _

theorem agree_conditional : Agree (Ahead P) (conditional descend) (conditional descend') := by
  refine .within hP.ahead _ (Agree.current.bind hP.ahead fun token => Agree.expect_bind fun _ => ?_)
  refine Agree.advance.bind hP fun _ => (hd _).bind hP fun condition => ?_
  refine (Agree.expect hP _ _).bind hP fun _ => (Agree.expect hP _ _).bind hP fun _ => ?_
  have hblock : Agree P (block descend) (block descend') :=
    (agree_block hP hd).imp fun s hs => hP _ _ s.advance_leads hs
  refine hblock.bind hP fun consequence => Agree.upcoming.bind hP fun other => ?_
  split
  · refine Agree.advance.bind hP fun _ => (Agree.expect hP _ _).bind hP fun _ => ?_
    exact hblock.bind hP fun _ => .pure _
  · exact .pure _

theorem agree_function : Agree (Ahead P) (function descend) (function descend') := by
  refine .within hP.ahead _ (Agree.current.bind hP.ahead fun token => Agree.expect_bind fun _ => ?_)
  refine (agree_parameters hP).bind hP fun names => (Agree.expect hP _ _).bind hP fun _ => ?_
  have hblock : Agree P (block descend) (block descend') :=
    (agree_block hP hd).imp fun s hs => hP _ _ s.advance_leads hs
  exact hblock.bind hP fun _ => .pure _

theorem agree_opening (opening : Opening) :
    Agree (Ahead P) (opening.rule descend) (opening.rule descend') := by
  cases opening with
  | identifier => exact Agree.current.bind hP.ahead fun _ => .pure _
  | integer => exact agree_integer hP.ahead
  | boolean => exact Agree.current.bind hP.ahead fun _ => .pure _
  | prefixed => exact agree_prefixed hP hd
  | grouped => exact agree_grouped hP hd
  | conditional => exact agree_conditional hP hd
  | function => exact agree_function hP hd

theorem agree_continuation (continuation : Continuation) (left : Expr) :
    Agree P (continuation.rule descend left) (continuation.rule descend' left) := by
  cases continuation with
  | infixed =>
      refine .within hP _ (Agree.current.bind hP fun token => ?_)
      split
      · exact .throw _
      · exact Agree.advance.bind hP fun _ => (hd _).bind hP fun _ => .pure _
  | call =>
      refine .within hP _ (Agree.current.bind hP fun token => ?_)
      exact (agree_arguments hP hd).bind hP fun _ => .pure _

/-- Only where an expression can begin is there anything inside it. -/
theorem together_expressionStep (hs : s.current.kind ≠ .eof → P s.advance) (limit : Precedence) :
    Together s (expressionStep descend limit) (expressionStep descend' limit) := by
  have hrun (descend : Precedence → Parser Expr) : expressionStep descend limit s = _ :=
    current_bind _ s
  cases hk : Opening.ofKind? s.current.kind with
  | none =>
      -- Nothing is read here, so that nothing is needed of `descend`.
      have hreject := Agree.within lasting_true (.expression limit s.current)
        (Agree.reject (α := Expr) ⟨s.current, .cannotStart⟩)
      rw [hk] at hrun
      exact (hreject s trivial).of_eq (hrun descend) (hrun descend')
  | some opening =>
      have hne : s.current.kind ≠ .eof := by
        intro heof
        rw [heof] at hk
        cases hk
      have hextend (continuation : Continuation) (left : Expr) : Agree (Ahead P)
          (extend descend continuation left) (extend descend' continuation left) :=
        Agree.advance_bind (agree_continuation hP hd continuation left)
      have hloop (left : Expr) : Agree (Ahead P) (loop (continuation? limit) (extend descend) left)
          (loop (continuation? limit) (extend descend') left) := .loop hP.ahead hextend left
      have hinside := Agree.within hP.ahead (.expression limit s.current)
        ((agree_opening hP hd opening).bind hP.ahead hloop)
      rw [hk] at hrun
      exact (hinside s (hs hne)).of_eq (hrun descend) (hrun descend')

end

end ClosureLang.Parser
