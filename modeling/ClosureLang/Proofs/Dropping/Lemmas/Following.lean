import ClosureLang.Proofs.Advancing.Lemmas.Agreeing
import ClosureLang.Proofs.Dropping.Detours
import ClosureLang.Proofs.Grammar.Lemmas.Soundness

/-!
# Rules with detours

A rule records an error before it drops its construct, and with detours it does the same if either
dropped statements are passed over or no error is recorded. One lemma for each step that parsers are
put together from, and one for each rule.
-/

namespace ClosureLang.Parser

variable {α β γ δ : Type} {s s₁ : State} {P : State → Prop} {C : Prop}

theorem Outcome.leads {Q : α → State → Prop} {r : EStateM.Result Failure State α}
    (h : Outcome s Q r) : s.Leads (stateOf r) := by
  cases h with
  | ok hl _ => exact hl
  | dropped hl _ => exact hl

/-- From `s` the first parser accounts for what it drops. The second one does the same if `C` holds,
or if no error is recorded. -/
structure FollowsAt (C : Prop) (s : State) (p p' : Parser α) : Prop where
  outcome : Outcome s (fun _ _ => True) (p s)
  same : C ∨ (stateOf (p s)).errors = s.errors → p' s = p s

namespace FollowsAt

variable {p p' q q' : Parser α} {f f' : α → Parser β}

theorem itself (h : Outcome s (fun _ _ => True) (p s)) : FollowsAt C s p p :=
  ⟨h, fun _ => rfl⟩

/-- The parsers go on in another state as two others do. -/
theorem after (hl : s.Leads s₁) (hp : p s = q s₁) (hp' : p' s = q' s₁) (h : FollowsAt C s₁ q q') :
    FollowsAt C s p p' where
  outcome := hp ▸ h.outcome.trans hl
  same hc := by
    rw [hp, hp']
    rw [hp] at hc
    exact h.same (hc.imp_right fun he => he.trans (hl.errors_eq h.outcome.leads he).symm)

theorem bind (hp : FollowsAt C s p p')
    (hf : ∀ a s', s.Leads s' → p s = .ok a s' → FollowsAt C s' (f a) (f' a)) :
    FollowsAt C s (p >>= f) (p' >>= f') := by
  obtain ⟨hout, hsame⟩ := hp
  cases hrun : p s with
  | ok a s' =>
      rw [hrun] at hout hsame
      obtain ⟨hout', hsame'⟩ := hf a s' hout.leads hrun
      refine ⟨bind_eq hrun ▸ hout'.trans hout.leads, fun hc => ?_⟩
      rw [bind_eq hrun] at hc ⊢
      have herrors : C ∨ s'.errors = s.errors :=
        hc.imp_right (hout.leads.errors_eq hout'.leads)
      rw [bind_eq (hsame herrors)]
      exact hsame' (hc.imp_right fun he => he.trans (hout.leads.errors_eq hout'.leads he).symm)
  | error failure s' =>
      rw [hrun] at hout hsame
      refine ⟨?_, fun hc => ?_⟩
      · rw [bind_eq_error hrun]
        cases hout with
        | dropped hl he => exact .dropped hl he
      · rw [bind_eq_error hrun] at hc ⊢
        exact bind_eq_error (hsame hc)

theorem errors_within (activity : Activity) (p : Parser α) (s : State) :
    (stateOf (Parser.within activity p s)).errors =
      (stateOf (p (s.note (.enter activity)))).errors := by
  unfold Parser.within
  cases p (s.note (.enter activity)) <;> rfl

theorem within {activity : Activity} (hp : FollowsAt C (s.note (.enter activity)) p p') :
    FollowsAt C s (Parser.within activity p) (Parser.within activity p') where
  outcome := outcome_inside (Q := fun _ _ _ => True) (fun _ _ _ _ _ h => h) hp.outcome
  same hc := by
    rw [errors_within] at hc
    have hsame := hp.same hc
    simp only [Parser.within, hsame]

end FollowsAt

/-- A property that stays with a parser on its way, which ends at the end of the source. -/
structure Bounding (P : State → Prop) : Prop where
  lasting : Lasting P
  finish : ∀ s, P s → s.finish.kind = .eof

theorem Bounding.ahead (hP : Bounding P) : Bounding (Ahead P) :=
  ⟨hP.lasting.ahead, fun s hs => hP.finish s.advance hs⟩

/-- The second parser follows the first one wherever `P` holds. -/
def Follows (C : Prop) (P : State → Prop) (p p' : Parser α) : Prop :=
  ∀ s, P s → FollowsAt C s p p'

namespace Follows

variable {p p' : Parser α} {f f' : α → Parser β}

theorem pure (a : α) : Follows C P (Pure.pure a) (Pure.pure a) :=
  fun _ _ => .itself (.pure trivial)

theorem current : Follows C P Parser.current Parser.current :=
  fun s _ => .itself (.ok (.refl s) trivial)

theorem upcoming : Follows C P Parser.upcoming Parser.upcoming :=
  fun s _ => .itself (.ok (.refl s) trivial)

theorem advance : Follows C P Parser.advance Parser.advance :=
  fun s _ => .itself (.ok s.advance_leads trivial)

theorem reject (error : SyntaxError) :
    Follows C P (Parser.reject error : Parser α) (Parser.reject error) :=
  fun _ _ => .itself (outcome_reject error)

theorem imp {P' : State → Prop} (h : Follows C P p p') (hP : ∀ s, P' s → P s) :
    Follows C P' p p' :=
  fun s hs => h s (hP s hs)

theorem bind (hP : Lasting P) (hp : Follows C P p p') (hf : ∀ a, Follows C P (f a) (f' a)) :
    Follows C P (p >>= f) (p' >>= f') :=
  fun s hs => (hp s hs).bind fun a s' hl _ => hf a s' (hP s s' hl hs)

/-- Behind a token that is passed over. -/
theorem advance_bind {f f' : Unit → Parser β} (h : Follows C P (f ()) (f' ())) :
    Follows C (Ahead P) (Parser.advance >>= f) (Parser.advance >>= f') :=
  fun s hs => .after s.advance_leads rfl rfl (h s.advance hs)

/-- Behind the token that is expected. -/
theorem expect_bind {f f' : Token → Parser β} {wanted : Kind} {hint : Option Hint}
    (h : ∀ token, Follows C P (f token) (f' token)) :
    Follows C (Ahead P) (Parser.expect wanted hint >>= f) (Parser.expect wanted hint >>= f') := by
  intro s hs
  by_cases hk : s.upcoming.kind = wanted
  · exact .after s.advance_leads (bind_eq (expect_eq hk)) (bind_eq (expect_eq hk)) (h _ _ hs)
  · have hrun (f : Token → Parser β) : (Parser.expect wanted hint >>= f) s =
        Parser.reject ⟨s.upcoming, .expected wanted hint⟩ s := bind_eq_error (expect_eq_error hk)
    exact .after (.refl s) (hrun f) (hrun f') (reject _ s hs)

theorem expect (hP : Lasting P) (wanted : Kind) (hint : Option Hint) :
    Follows C P (Parser.expect wanted hint) (Parser.expect wanted hint) := by
  refine upcoming.bind hP fun token => ?_
  split
  · exact advance.bind hP fun _ => pure _
  · exact reject _

theorem map (hP : Lasting P) (f : α → β) (hp : Follows C P p p') :
    Follows C P (f <$> p) (f <$> p') := by
  rw [map_eq_pure_bind, map_eq_pure_bind]
  exact hp.bind hP fun _ => pure _

theorem within (hP : Lasting P) (activity : Activity) (hp : Follows C P p p') :
    Follows C P (Parser.within activity p) (Parser.within activity p') :=
  fun s hs => .within (hp _ (hP _ _ (s.note_leads _) hs))

end Follows

/-! ## Loops -/

theorem length_advance_lt_of_ne_nil (h : s.tokens ≠ []) :
    s.advance.tokens.length < s.tokens.length := by
  have hpos := List.length_pos_iff.mpr h
  simp only [State.tokens_advance, List.length_tail]
  omega

theorem tokens_ne_nil (hfinish : s.finish.kind = .eof)
    (h : s.current.kind ≠ .eof ∨ s.upcoming.kind ≠ .eof) : s.tokens ≠ [] := by
  intro hnil
  simp [State.current, State.upcoming, hnil, hfinish] at h

/-- A round that begins by passing over a token uses it up. -/
theorem FollowsAt.advance_round {p p' : Unit → Parser α} (hne : s.tokens ≠ [])
    (h : FollowsAt C s.advance (p ()) (p' ())) :
    FollowsAt C s (Parser.advance >>= p) (Parser.advance >>= p') ∧
      (stateOf ((Parser.advance >>= p) s)).tokens.length < s.tokens.length :=
  ⟨.after s.advance_leads rfl rfl h,
    Nat.lt_of_le_of_lt h.outcome.leads.length_le (length_advance_lt_of_ne_nil hne)⟩

section

variable {pick : State → Option β} {pick' : State → Option γ} {move : β → γ}
  {round : β → α → Parser α} {round' : γ → α → Parser α}

/-- Every round uses up a token, so that the rounds come to an end before the tokens do. -/
theorem follows_rounds (hP : Bounding P) (hpick : ∀ s, pick' s = (pick s).map move)
    (stop : ∀ s, P s → s.tokens = [] → pick s = none)
    (step : ∀ s b acc, P s → pick s = some b → FollowsAt C s (round b acc) (round' (move b) acc) ∧
      (stateOf (round b acc s)).tokens.length < s.tokens.length) :
    ∀ (left : List Token) (acc : α) (s : State), P s → s.tokens.length ≤ left.length →
      FollowsAt C s (rounds pick round left acc) (rounds pick' round' left acc) := by
  intro left
  induction left with
  | nil =>
      intro acc s hs hlength
      have hnone := stop s hs (List.length_eq_zero_iff.mp (Nat.le_zero.mp hlength))
      have hnone' : pick' s = none := by rw [hpick, hnone, Option.map_none]
      exact .after (.refl s) (rounds_of_none hnone _ _) (rounds_of_none hnone' _ _)
        (.itself (.pure trivial))
  | cons token left ih =>
      intro acc s hs hlength
      cases hp : pick s with
      | none =>
          have hnone' : pick' s = none := by rw [hpick, hp, Option.map_none]
          exact .after (.refl s) (rounds_of_none hp _ _) (rounds_of_none hnone' _ _)
            (.itself (.pure trivial))
      | some b =>
          have hp' : pick' s = some (move b) := by rw [hpick, hp, Option.map_some]
          obtain ⟨hround, hlt⟩ := step s b acc hs hp
          refine .after (.refl s) (rounds_of_some hp _ _ _) (rounds_of_some hp' _ _ _) ?_
          refine hround.bind fun acc' s' hl hrun => ih acc' s' (hP.lasting s s' hl hs) ?_
          rw [hrun] at hlt
          exact Nat.le_of_lt_succ (Nat.lt_of_lt_of_le hlt hlength)

theorem follows_loop (hP : Bounding P) (hpick : ∀ s, pick' s = (pick s).map move)
    (stop : ∀ s, P s → s.tokens = [] → pick s = none)
    (step : ∀ s b acc, P s → pick s = some b → FollowsAt C s (round b acc) (round' (move b) acc) ∧
      (stateOf (round b acc s)).tokens.length < s.tokens.length) (acc : α) :
    Follows C P (loop pick round acc) (loop pick' round' acc) :=
  fun s hs => .after (.refl s) (get_bind _ s) (get_bind _ s)
    (follows_rounds hP hpick stop step s.tokens acc s hs (Nat.le_refl _))

end

/-! ## Statements -/

theorem attempt_eq {p : Parser α} {a : α} (h : p s = .ok a s₁) :
    attempt p s = .ok (some a) s₁ := by
  simp only [attempt, h]

theorem attempt_eq_none {p : Parser α} (h : p s = .error .dropped s₁) :
    attempt p s = .ok none s₁ := by
  simp only [attempt, h]

section

variable {detours : Detours} {descend descend' : Precedence → Parser Expr}

theorem follows_optionalSemicolon (hP : Lasting P) :
    Follows C P optionalSemicolon optionalSemicolon := by
  refine Follows.upcoming.bind hP fun token => ?_
  split
  · exact .advance
  · exact .pure _

theorem follows_ending (hP : Lasting P) {value value' : Parser Expr}
    (hvalue : Follows C P value value') (f : Expr → Stmt) :
    Follows C P (do let expr ← value; optionalSemicolon; return f expr)
      (do let expr ← value'; optionalSemicolon; return f expr) :=
  hvalue.bind hP fun _ => (follows_optionalSemicolon hP).bind hP fun _ => .pure _

theorem follows_statement (hP : Lasting P)
    (hd : ∀ limit, Follows C P (descend limit) (descend' limit)) :
    Follows C P (statement descend) (statement descend') := by
  refine Follows.current.bind hP fun token => ?_
  split
  · refine .within hP _ (Follows.current.bind hP fun token => ?_)
    refine (Follows.expect hP _ _).bind hP fun name => (Follows.expect hP _ _).bind hP fun _ => ?_
    exact Follows.advance.bind hP fun _ => follows_ending hP (hd _) _
  · refine .within hP _ (Follows.current.bind hP fun token => ?_)
    exact Follows.advance.bind hP fun _ => follows_ending hP (hd _) _
  · exact .within hP _ (Follows.current.bind hP fun _ => follows_ending hP (hd _) _)

variable (hP : Bounding P)
  (hd : ∀ limit, Follows detours.PassesOver P (descend limit) (descend' limit))

include hP hd

/-- A statement that is dropped leaves an error behind, so that with detours it is passed over too,
or else nothing needs to be the same. -/
theorem followsAt_addStatement (hs : P s) (hne : s.tokens ≠ []) (read : List Stmt) :
    FollowsAt detours.PassesOver s (addStatement descend read)
        (detours.addStatement descend' read) ∧
      (stateOf (addStatement descend read s)).tokens.length < s.tokens.length := by
  obtain ⟨hout, hsame⟩ := follows_statement hP.lasting hd s hs
  have hlt {s' : State} (hl : s.Leads s') : s'.advance.tokens.length < s.tokens.length :=
    Nat.lt_of_le_of_lt hl.advance.length_le (length_advance_lt_of_ne_nil hne)
  cases hrun : statement descend s with
  | ok stmt s' =>
      rw [hrun] at hout hsame
      have hadd : addStatement descend read s = .ok (stmt :: read) s'.advance :=
        bind_eq (attempt_eq hrun)
      rw [hadd]
      refine ⟨⟨?_, fun hc => ?_⟩, hlt hout.leads⟩
      · rw [hadd]
        exact .ok (hout.leads.trans s'.advance_leads) trivial
      · rw [hadd] at hc ⊢
        exact bind_eq (attempt_eq (hsame hc))
  | error failure s' =>
      rw [hrun] at hout hsame
      cases hout with
      | dropped hl he =>
          have hadd : addStatement descend read s = .ok read s'.advance :=
            bind_eq (attempt_eq_none hrun)
          rw [hadd]
          refine ⟨⟨?_, fun hc => ?_⟩, hlt hl⟩
          · rw [hadd]
            exact .ok (hl.trans s'.advance_leads) trivial
          · rw [hadd] at hc ⊢
            have hpasses : detours.PassesOver := hc.resolve_right he
            have hdropped : detours.addStatement descend' read s = detours.dropped read s' :=
              bind_eq (attempt_eq_none (hsame (.inl hpasses)))
            rw [hdropped, hpasses]
            rfl

theorem follows_statements {stops : Kind → Bool} (hstops : stops .eof = true) :
    Follows detours.PassesOver P (statements descend stops)
      (detours.statements descend' stops) := by
  refine (follows_loop hP (fun s => Option.map_id'.symm) (fun s hs hnil => ?_)
    (fun s _ read hs hpick => ?_) []).bind hP.lasting fun _ => .pure _
  · rw [guard_eq_none_iff]
    simp [State.current, hnil, hP.finish s hs, hstops]
  · have hk : s.current.kind ≠ .eof := fun hk => of_guard_eq_some hpick (hk ▸ hstops)
    exact followsAt_addStatement hP hd hs (tokens_ne_nil (hP.finish s hs) (.inl hk)) read

theorem follows_block :
    Follows detours.PassesOver (Ahead P) (block descend) (detours.block descend') := by
  refine .within hP.lasting.ahead _ (Follows.current.bind hP.lasting.ahead fun token => ?_)
  refine Follows.advance_bind ((follows_statements hP hd (by decide)).bind hP.lasting fun _ => ?_)
  refine Follows.current.bind hP.lasting fun last => ?_
  split
  · exact .reject _
  · exact .pure _

/-! ## Lists of items -/

omit hd in
theorem follows_items {item item' : Parser α} (hitem : Follows C P item item') (first : α) :
    Follows C P (items item first) (items item' first) := by
  refine (follows_loop hP (fun s => Option.map_id'.symm) (fun s hs hnil => ?_)
    (fun s _ read hs hpick => ?_) _).bind hP.lasting fun _ => .pure _
  · rw [guard_eq_none_iff]
    simp [State.upcoming, hnil, hP.finish s hs]
  · have hk : s.upcoming.kind = .comma := of_guard_eq_some hpick
    have hne := tokens_ne_nil (hP.finish s hs) (.inr (hk ▸ by decide))
    have hadd : Follows C P (do return (← item) :: read) (do return (← item') :: read) :=
      hitem.bind hP.lasting fun _ => .pure _
    exact FollowsAt.advance_round hne (hadd s.advance (hP.lasting s _ s.advance_leads hs))

omit hd in
theorem follows_parameters : Follows C P parameters parameters := by
  have hparameter : Follows C P (Identifier.ofToken <$> expect .identifier none)
      (Identifier.ofToken <$> expect .identifier none) :=
    .map hP.lasting _ (.expect hP.lasting _ _)
  refine Follows.upcoming.bind hP.lasting fun token => ?_
  split
  · exact Follows.advance.bind hP.lasting fun _ => .pure _
  · refine hparameter.bind hP.lasting fun first => ?_
    refine (follows_items hP hparameter first).bind hP.lasting fun names => ?_
    exact (Follows.expect hP.lasting _ _).bind hP.lasting fun _ => .pure _

theorem follows_arguments :
    Follows detours.PassesOver P (arguments descend) (arguments descend') := by
  have hargument : Follows detours.PassesOver P (do advance; descend .lowest)
      (do advance; descend' .lowest) := Follows.advance.bind hP.lasting fun _ => hd _
  refine Follows.upcoming.bind hP.lasting fun token => ?_
  split
  · exact Follows.advance.bind hP.lasting fun _ => .pure _
  · refine hargument.bind hP.lasting fun first => ?_
    refine (follows_items hP hargument first).bind hP.lasting fun exprs => ?_
    exact (Follows.expect hP.lasting _ _).bind hP.lasting fun _ => .pure _

/-! ## Expressions -/

omit hd in
theorem follows_integer : Follows C P integer integer := by
  refine Follows.current.bind hP.lasting fun token => ?_
  split
  · exact .pure _
  · exact .reject _

theorem follows_grouped :
    Follows detours.PassesOver (Ahead P) (grouped descend) (grouped descend') := by
  refine Follows.advance_bind ((hd _).bind hP.lasting fun expr => ?_)
  exact (Follows.expect hP.lasting _ _).bind hP.lasting fun _ => .pure _

theorem follows_conditional :
    Follows detours.PassesOver (Ahead P) (conditional descend) (detours.conditional descend') := by
  have hblock : Follows detours.PassesOver P (block descend) (detours.block descend') :=
    (follows_block hP hd).imp fun s hs => hP.lasting _ _ s.advance_leads hs
  refine .within hP.lasting.ahead _ (Follows.current.bind hP.lasting.ahead fun token => ?_)
  refine Follows.expect_bind fun _ => Follows.advance.bind hP.lasting fun _ => ?_
  refine (hd _).bind hP.lasting fun condition => ?_
  refine (Follows.expect hP.lasting _ _).bind hP.lasting fun _ => ?_
  refine (Follows.expect hP.lasting _ _).bind hP.lasting fun _ => ?_
  refine hblock.bind hP.lasting fun consequence => ?_
  refine Follows.upcoming.bind hP.lasting fun other => ?_
  split
  · refine Follows.advance.bind hP.lasting fun _ => ?_
    refine (Follows.expect hP.lasting _ _).bind hP.lasting fun _ => ?_
    exact hblock.bind hP.lasting fun _ => .pure _
  · exact .pure _

theorem follows_function :
    Follows detours.PassesOver (Ahead P) (function descend) (detours.function descend') := by
  have hblock : Follows detours.PassesOver P (block descend) (detours.block descend') :=
    (follows_block hP hd).imp fun s hs => hP.lasting _ _ s.advance_leads hs
  refine .within hP.lasting.ahead _ (Follows.current.bind hP.lasting.ahead fun token => ?_)
  refine Follows.expect_bind fun _ => (follows_parameters hP).bind hP.lasting fun names => ?_
  refine (Follows.expect hP.lasting _ _).bind hP.lasting fun _ => ?_
  exact hblock.bind hP.lasting fun _ => .pure _

/-! ## Rules that a token chooses -/

omit hP hd in
theorem exists_prefixOp {kind : Kind} (h : Opening.ofKind? kind = some .prefixed) :
    ∃ op, PrefixOp.ofKind? kind = some op := by
  cases kind <;> first | exact ⟨_, rfl⟩ | cases h

omit hP hd in
theorem exists_infixOp {kind : Kind} (h : Continuation.ofKind? kind = some .infixed) :
    ∃ op, InfixOp.ofKind? kind = some op := by
  cases kind <;> first | exact ⟨_, rfl⟩ | cases h

/-- The rule for prefix operators is chosen for them only. -/
theorem followsAt_prefixed (hs : Ahead P s)
    (hk : Opening.ofKind? s.current.kind = some .prefixed) :
    FollowsAt detours.PassesOver s (prefixed descend) (detours.prefixed descend') := by
  obtain ⟨op, hop⟩ := exists_prefixOp hk
  have hinside (s : State) (hs : Ahead P s) : FollowsAt detours.PassesOver s
      (do advance; return Expr.prefixed s.current op (← descend .prefixed))
      (do advance; return Expr.prefixed s.current op (← descend' .prefixed)) :=
    Follows.advance_bind ((hd .prefixed).bind hP.lasting fun _ => .pure _) s hs
  refine .within (.after (.refl _) ?_ ?_ (hinside _ (hP.lasting.ahead _ _ (s.note_leads _) hs)))
  · rw [current_bind, show PrefixOp.ofKind? (s.note _).current.kind = some op from hop]
  · rw [current_bind, show PrefixOp.ofKind? (s.note _).current.kind = some op from hop]

/-- The rule for infix operators is chosen for them only. -/
theorem followsAt_infixed (hs : P s) (hk : Continuation.ofKind? s.current.kind = some .infixed)
    (left : Expr) :
    FollowsAt detours.PassesOver s (infixed descend left) (detours.infixed descend' left) := by
  obtain ⟨op, hop⟩ := exists_infixOp hk
  have hinside (s : State) (hs : P s) : FollowsAt detours.PassesOver s
      (do advance; return Expr.infixed s.current left op (← descend (.ofKind s.current.kind)))
      (do advance; return Expr.infixed s.current left op (← descend' (.ofKind s.current.kind))) :=
    Follows.advance.bind hP.lasting (fun _ => (hd _).bind hP.lasting fun _ => .pure _) s hs
  refine .within (.after (.refl _) ?_ ?_ (hinside _ (hP.lasting _ _ (s.note_leads _) hs)))
  · rw [current_bind, show InfixOp.ofKind? (s.note _).current.kind = some op from hop]
  · rw [current_bind, show InfixOp.ofKind? (s.note _).current.kind = some op from hop]

theorem followsAt_opening (hs : Ahead P s) {opening : Opening}
    (hk : Opening.ofKind? s.current.kind = some opening) :
    FollowsAt detours.PassesOver s (opening.rule descend) (detours.opening descend' opening) := by
  have hahead := hP.lasting.ahead
  cases opening with
  | identifier => exact Follows.current.bind hahead (fun _ => .pure _) s hs
  | integer => exact follows_integer hP.ahead s hs
  | boolean => exact Follows.current.bind hahead (fun _ => .pure _) s hs
  | prefixed => exact followsAt_prefixed hP hd hs hk
  | grouped => exact follows_grouped hP hd s hs
  | conditional => exact follows_conditional hP hd s hs
  | function => exact follows_function hP hd s hs

theorem followsAt_continuation (hs : P s) {continuation : Continuation}
    (hk : Continuation.ofKind? s.current.kind = some continuation) (left : Expr) :
    FollowsAt detours.PassesOver s (continuation.rule descend left)
      (detours.continuation descend' continuation left) := by
  cases continuation with
  | infixed => exact followsAt_infixed hP hd hs hk left
  | call =>
      have hcall : Follows detours.PassesOver P (call descend left) (call descend' left) := by
        refine .within hP.lasting _ (Follows.current.bind hP.lasting fun token => ?_)
        exact (follows_arguments hP hd).bind hP.lasting fun _ => .pure _
      exact hcall s hs

omit hP hd in
/-- There is a rule for every token that binds. -/
theorem continuation?_detours (limit : Precedence) (s : State) :
    Detours.continuation? limit s = (continuation? limit s).map some := by
  simp only [Detours.continuation?, continuation?]
  split
  · next hk =>
    have hpos := Nat.lt_of_le_of_lt (Nat.zero_le _) (Precedence.lt_iff_rank_lt.mp hk.2)
    rcases Grammar.exists_continuation hpos with ⟨hc, -⟩ | ⟨hc, -⟩ <;> rw [hc, Option.map_some]
  · rfl

theorem follows_continuations (limit : Precedence) (left : Expr) :
    Follows detours.PassesOver (Ahead P) (loop (continuation? limit) (extend descend) left)
      (loop (Detours.continuation? limit) (detours.extend descend') left) := by
  refine follows_loop hP.ahead (continuation?_detours limit) (fun s hs hnil => ?_)
    (fun s continuation left hs hpick => ?_) left
  · simp [continuation?, State.upcoming, hnil, hP.ahead.finish s hs, Continuation.ofKind?]
  · have hne := tokens_ne_nil (hP.ahead.finish s hs) (.inr (upcoming_ne_eof_of_continuation? hpick))
    exact FollowsAt.advance_round hne
      (followsAt_continuation hP hd hs (lt_of_continuation?_eq_some hpick).2 left)

theorem followsAt_expressionStep (hs : s.current.kind ≠ .eof → Ahead P s) (limit : Precedence) :
    FollowsAt detours.PassesOver s (expressionStep descend limit)
      (detours.expressionStep descend' limit) := by
  refine .after (.refl s) (current_bind _ s) (current_bind _ s) (.within ?_)
  cases hk : Opening.ofKind? s.current.kind with
  | none => exact .itself (outcome_reject _)
  | some opening =>
      have hne : s.current.kind ≠ .eof := by
        intro heof
        rw [heof] at hk
        cases hk
      have hnoted : Ahead P (s.note (.enter (.expression limit s.current))) :=
        hP.lasting.ahead _ _ (s.note_leads _) (hs hne)
      refine (followsAt_opening hP hd hnoted hk).bind fun left s' hl _ => ?_
      exact follows_continuations hP hd limit left s' (hP.lasting.ahead _ _ hl hnoted)

end

/-! ## All rules -/

/-- Before the end of the source, with fewer than `n` tokens left. -/
structure State.Short (n : Nat) (s : State) : Prop where
  finish : s.finish.kind = .eof
  length_lt : s.tokens.length < n

theorem bounding_short (n : Nat) : Bounding (State.Short n) where
  lasting _ _ hl hs := ⟨hl.finish ▸ hs.finish, Nat.lt_of_le_of_lt hl.length_le hs.length_lt⟩
  finish _ hs := hs.finish

theorem State.Short.advance {n : Nat} (hs : s.Short (n + 1)) (hk : s.current.kind ≠ .eof) :
    Ahead (State.Short n) s := by
  have hlt := length_advance_lt_of_ne_nil (tokens_ne_nil hs.finish (.inl hk))
  exact ⟨hs.finish, Nat.lt_of_lt_of_le hlt (Nat.le_of_lt_succ hs.length_lt)⟩

theorem follows_expression (detours : Detours) : (n : Nat) → (limit : Precedence) →
    Follows detours.PassesOver (State.Short n) (expression n limit) (detours.expression n limit)
  | 0, _ => fun _ hs => absurd hs.length_lt (Nat.not_lt_zero _)
  | n + 1, limit => fun _ hs =>
      followsAt_expressionStep (bounding_short n) (follows_expression detours n) hs.advance limit

theorem follows_program (detours : Detours) (n : Nat) :
    Follows detours.PassesOver (State.Short n) (program n) (detours.program n) := by
  have hP := bounding_short n
  refine .within hP.lasting _ ?_
  exact (follows_statements hP (follows_expression detours n) (by decide)).bind hP.lasting
    fun _ => .pure _

/-- Every rule at its place. -/
theorem RuleAt.follows {detours : Detours} {depth : Nat} {p p' : Parser α} (hs : s.Short depth)
    (h : RuleAt detours depth s α p p') : FollowsAt detours.PassesOver s p p' := by
  have hP := bounding_short depth
  have hd := follows_expression detours depth
  have hahead : Ahead (State.Short depth) s := hP.lasting _ _ s.advance_leads hs
  cases h with
  | statement => exact follows_statement hP.lasting hd s hs
  | expression limit => exact hd limit s hs
  | block => exact follows_block hP hd s hahead
  | parameters => exact follows_parameters hP s hs
  | arguments => exact follows_arguments hP hd s hs
  | opening hk => exact followsAt_opening hP hd hahead hk
  | continuation left hk => exact followsAt_continuation hP hd hs hk left

end ClosureLang.Parser
