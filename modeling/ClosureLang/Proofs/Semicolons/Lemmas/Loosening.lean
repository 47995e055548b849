import ClosureLang.Proofs.Rendering.Lemmas.Counting

/-!
# Semicolons that are left out of a derivation

Wherever a semicolon stands among derived tokens, an expression ends in front of it and a statement
may begin behind it. The tokens without it derive the same tree if the token behind it does not run
on. One lemma for each form of the grammar.
-/

namespace ClosureLang.Grammar

/-- The first token of a list does not continue a statement. -/
def StartsAfresh (tokens : List Token) : Prop :=
  ∀ next ∈ tokens.head?, runsOn next.kind = false

/-- Of the tokens that run on, only these can begin a statement. -/
def MayBegin (tokens : List Token) : Prop :=
  ∀ next ∈ tokens.head?, runsOn next.kind = true → next.kind = .minus ∨ next.kind = .leftParen

/-- Between `before` and `after` a semicolon stands behind an expression and in front of what may
begin a statement. If that starts afresh, the property `D` is kept without the semicolon. The tokens
follow others that end an expression if `behind` says so. -/
structure LeavesOut (behind : Bool) (D : List Token → Prop) (before after : List Token) : Prop where
  ended : isEnded behind (kindsOf before) = true
  mayBegin : MayBegin after
  keeps : StartsAfresh after → D (before ++ after)

/-- Every semicolon among the tokens can be left out. -/
def Loosens (behind : Bool) (D : List Token → Prop) (tokens : List Token) : Prop :=
  ∀ before semicolon after, tokens = before ++ semicolon :: after → semicolon.kind = .semicolon →
    LeavesOut behind D before after

namespace Loosens

variable {behind : Bool} {D D' : List Token → Prop} {token semicolon : Token}
  {tokens rest : List Token}

theorem nil : Loosens behind D [] := by
  intro before semicolon after h
  simp at h

theorem cons (hk : token.kind ≠ .semicolon)
    (h : Loosens token.kind.isEnd (fun tokens => D (token :: tokens)) tokens) :
    Loosens behind D (token :: tokens) := by
  intro before semicolon after htokens hsemicolon
  rcases List.cons_eq_append_iff.mp htokens with ⟨rfl, heq⟩ | ⟨before, rfl, hrest⟩
  · obtain ⟨rfl, -⟩ := List.cons_eq_cons.mp heq
    exact absurd hsemicolon hk
  · have hbehind := h before semicolon after hrest hsemicolon
    exact ⟨hbehind.ended, hbehind.mayBegin, hbehind.keeps⟩

/-- What is put behind the tokens may begin a statement, if a semicolon can be the last of them. -/
theorem append (h : Loosens behind D' tokens)
    (hseam : isEnded behind (kindsOf tokens) = true ∨ MayBegin rest)
    (hD : ∀ tokens', D' tokens' → D (tokens' ++ rest))
    (hrest : Loosens (isEnded behind (kindsOf tokens)) (fun rest => D (tokens ++ rest)) rest) :
    Loosens behind D (tokens ++ rest) := by
  intro before semicolon after htokens hsemicolon
  rcases List.append_eq_append_iff.mp htokens with ⟨before, rfl, heq⟩ | ⟨after', rfl, heq⟩
  · have hbehind := hrest before semicolon after heq hsemicolon
    refine ⟨?_, hbehind.mayBegin, fun hafter => ?_⟩
    · rw [kindsOf_append, isEnded_append, hbehind.ended]
    · rw [List.append_assoc]
      exact hbehind.keeps hafter
  · rcases List.cons_eq_append_iff.mp heq with ⟨rfl, rfl⟩ | ⟨after', rfl, rfl⟩
    · have hbehind := hrest [] semicolon after rfl hsemicolon
      rw [List.append_nil] at hbehind
      exact ⟨hbehind.ended, hbehind.mayBegin, hbehind.keeps⟩
    · have hfront := h before semicolon after' rfl hsemicolon
      refine ⟨hfront.ended, ?_, fun hafter => ?_⟩
      · cases after' with
        | nil =>
            refine hseam.resolve_left fun hend => ?_
            rw [kindsOf_append, isEnded_append, kindsOf_cons, hsemicolon] at hend
            cases hend
        | cons next _ => exact hfront.mayBegin
      · have hfresh : StartsAfresh after' := fun next hnext => hafter next (by
          rw [List.head?_append, Option.mem_def.mp hnext]
          rfl)
        rw [← List.append_assoc]
        exact hD _ (hfront.keeps hfresh)

/-- The semicolon itself, behind an expression. -/
theorem ended (hk : semicolon.kind = .semicolon) (hbegin : MayBegin rest)
    (hD : StartsAfresh rest → D rest)
    (h : Loosens false (fun rest => D (semicolon :: rest)) rest) :
    Loosens true D (semicolon :: rest) := by
  intro before other after htokens hother
  rcases List.cons_eq_append_iff.mp htokens with ⟨rfl, heq⟩ | ⟨before, rfl, hrest⟩
  · obtain ⟨-, rfl⟩ := List.cons_eq_cons.mp heq
    exact ⟨rfl, hbegin, hD⟩
  · have hbehind := h before other after hrest hother
    refine ⟨?_, hbehind.mayBegin, hbehind.keeps⟩
    rw [kindsOf_cons, isEnded, hk]
    exact hbehind.ended

theorem mono (h : Loosens behind D' tokens) (hD : ∀ tokens, D' tokens → D tokens) :
    Loosens behind D tokens := by
  intro before semicolon after htokens hk
  have hout := h before semicolon after htokens hk
  exact ⟨hout.ended, hout.mayBegin, fun hafter => hD _ (hout.keeps hafter)⟩

/-- What is left behind the first token. -/
theorem tail (h : Loosens behind D (token :: tokens)) :
    Loosens token.kind.isEnd (fun tokens => D (token :: tokens)) tokens := by
  intro before semicolon after htokens hk
  have hout := h (token :: before) semicolon after (congrArg (token :: ·) htokens) hk
  exact ⟨hout.ended, hout.mayBegin, hout.keeps⟩

/-- Tokens that start afresh still do. -/
theorem afresh (h : Loosens behind D' tokens) (hfresh : StartsAfresh tokens)
    (hD : ∀ tokens, StartsAfresh tokens → D' tokens → D tokens) : Loosens behind D tokens := by
  intro before semicolon after htokens hk
  have hout := h before semicolon after htokens hk
  refine ⟨hout.ended, hout.mayBegin, fun hafter => hD _ ?_ (hout.keeps hafter)⟩
  cases before with
  | nil =>
      have hruns := hfresh semicolon (by rw [htokens]; rfl)
      rw [hk] at hruns
      cases hruns
  | cons first before =>
      intro next hnext
      exact hfresh next (by rw [htokens]; exact hnext)

end Loosens

theorem mayBegin_cons {next : Token} (h : runsOn next.kind = false) (tokens : List Token) :
    MayBegin (next :: tokens) := by
  intro other hother hruns
  obtain rfl := Option.some.inj hother
  rw [h] at hruns
  cases hruns

theorem eq_of_opening_of_runsOn {kind : Kind} {opening : Parser.Opening}
    (h : Parser.Opening.ofKind? kind = some opening) (hruns : runsOn kind = true) :
    kind = .minus ∨ kind = .leftParen := by
  cases kind <;> simp [Parser.Opening.ofKind?, runsOn] at h hruns ⊢

theorem Statement.mayBegin_append {tokens : List Token} {stmt : Stmt} (h : Statement tokens stmt)
    (rest : List Token) : MayBegin (tokens ++ rest) := by
  cases h with
  | letStmt hk _ _ _ | returnStmt hk _ => exact mayBegin_cons (by rw [hk]; rfl) _
  | exprStmt hv =>
      obtain ⟨first, _, opening, heq, hopening⟩ := hv.exists_opening
      rw [heq]
      intro next hnext hruns
      obtain rfl := Option.some.inj hnext
      exact eq_of_opening_of_runsOn hopening hruns

theorem Statements.mayBegin {tokens : List Token} {stmts : List Stmt}
    (h : Statements tokens stmts) : MayBegin tokens := by
  cases h with
  | nil => exact fun _ h => by cases h
  | ended hstmt _ _ | unended hstmt _ _ => exact hstmt.mayBegin_append _

theorem ne_semicolon_of_operator? {level : Level} {kind : Kind} {op : InfixOp}
    (h : level.operator? kind = some op) : kind ≠ .semicolon := by
  rintro rfl
  cases level <;> cases h

theorem isEnded_statement {tokens : List Token} {stmt : Stmt} (h : Statement tokens stmt)
    (behind : Bool) : isEnded behind (kindsOf tokens) = true := by
  cases h with
  | letStmt _ _ _ hv | returnStmt _ hv | exprStmt hv => exact isEnded_expression hv _

theorem MoreParameters.loosens {tokens : List Token} {names : List Identifier}
    (h : MoreParameters tokens names) (behind : Bool) :
    Loosens behind (MoreParameters · names) tokens := by
  induction h generalizing behind with
  | nil => exact .nil
  | @cons comma name tokens names hcomma hname hmore ih =>
      refine .cons (by rw [hcomma]; decide) (.cons (by rw [hname]; decide) ?_)
      exact (ih _).mono fun _ => .cons hcomma hname

theorem Parameters.loosens {tokens : List Token} {names : List Identifier}
    (h : Parameters tokens names) (behind : Bool) :
    Loosens behind (Parameters · names) tokens := by
  cases h with
  | nil => exact .nil
  | cons hname hmore =>
      refine .cons (by rw [hname]; decide) ?_
      exact (hmore.loosens _).mono fun _ => .cons hname

mutual

theorem Expression.loosens {level : Level} {tokens : List Token} {expr : Expr}
    (h : Expression level tokens expr) (behind : Bool) :
    Loosens behind (Expression level · expr) tokens := by
  match h with
  | .tighter hr h => exact (h.loosens behind).mono fun _ => .tighter hr
  | .infixed hop hr hl hright =>
      refine .append (hl.loosens behind) (.inl (isEnded_expression hl _))
        (fun _ hl => .infixed hop hr hl hright) ?_
      refine .cons (ne_semicolon_of_operator? hop) ?_
      exact (hright.loosens _).mono fun _ => .infixed hop hr hl
  | .not hk h =>
      refine .cons (by rw [hk]; decide) ?_
      exact (h.loosens _).mono fun _ => .not hk
  | .negate hk h =>
      refine .cons (by rw [hk]; decide) ?_
      exact (h.loosens _).mono fun _ => .negate hk
  | .call hc ho ha hk =>
      refine .append (hc.loosens behind) (.inl (isEnded_expression hc _))
        (fun _ hc => .call hc ho ha hk) ?_
      refine .cons (by rw [ho]; decide) ?_
      refine .append (ha.loosens _) (.inr (mayBegin_cons (by rw [hk]; rfl) _))
        (fun _ ha => .call hc ho ha hk) ?_
      exact .cons (by rw [hk]; decide) .nil
  | .identifier hk | .integer hk _ | .true hk | .false hk =>
      exact .cons (by rw [hk]; decide) .nil
  | .grouped ho h hc =>
      refine .cons (by rw [ho]; decide) ?_
      refine .append (h.loosens _) (.inl (isEnded_expression h _)) (fun _ h => .grouped ho h hc) ?_
      exact .cons (by rw [hc]; decide) .nil
  | .conditional hw ho hc hk hb =>
      refine .cons (by rw [hw]; decide) (.cons (by rw [ho]; decide) ?_)
      refine .append (hc.loosens _) (.inl (isEnded_expression hc _))
        (fun _ hc => .conditional hw ho hc hk hb) ?_
      refine .cons (by rw [hk]; decide) ?_
      exact (hb.loosens _).mono fun _ => .conditional hw ho hc hk
  | .alternative hw ho hc hk hb he ha =>
      refine .cons (by rw [hw]; decide) (.cons (by rw [ho]; decide) ?_)
      refine .append (hc.loosens _) (.inl (isEnded_expression hc _))
        (fun _ hc => .alternative hw ho hc hk hb he ha) ?_
      refine .cons (by rw [hk]; decide) ?_
      refine .append (hb.loosens _) (.inl (isEnded_body hb _))
        (fun _ hb => .alternative hw ho hc hk hb he ha) ?_
      refine .cons (by rw [he]; decide) ?_
      exact (ha.loosens _).mono fun _ => .alternative hw ho hc hk hb he
  | .function hw ho hp hk hb =>
      refine .cons (by rw [hw]; decide) (.cons (by rw [ho]; decide) ?_)
      refine .append (hp.loosens _) (.inr (mayBegin_cons (by rw [hk]; rfl) _))
        (fun _ hp => .function hw ho hp hk hb) ?_
      refine .cons (by rw [hk]; decide) ?_
      exact (hb.loosens _).mono fun _ => .function hw ho hp hk

theorem Arguments.loosens {tokens : List Token} {args : List Expr} (h : Arguments tokens args)
    (behind : Bool) : Loosens behind (Arguments · args) tokens := by
  match h with
  | .nil => exact .nil
  | .cons ha hm =>
      refine .append (ha.loosens behind) (.inl (isEnded_expression ha _))
        (fun _ ha => .cons ha hm) ?_
      exact (hm.loosens _).mono fun _ => .cons ha

theorem MoreArguments.loosens {tokens : List Token} {args : List Expr}
    (h : MoreArguments tokens args) (behind : Bool) :
    Loosens behind (MoreArguments · args) tokens := by
  match h with
  | .nil => exact .nil
  | .cons hk ha hm =>
      refine .cons (by rw [hk]; decide) ?_
      refine .append (ha.loosens _) (.inl (isEnded_expression ha _))
        (fun _ ha => .cons hk ha hm) ?_
      exact (hm.loosens _).mono fun _ => .cons hk ha

theorem Body.loosens {tokens : List Token} {block : Block} (h : Body tokens block)
    (behind : Bool) : Loosens behind (Body · block) tokens := by
  match h with
  | .braces ho hs hc =>
      refine .cons (by rw [ho]; decide) ?_
      refine .append (hs.loosens _) (.inr (mayBegin_cons (by rw [hc]; rfl) _))
        (fun _ hs => .braces ho hs hc) ?_
      exact .cons (by rw [hc]; decide) .nil

theorem Statement.loosens {tokens : List Token} {stmt : Stmt} (h : Statement tokens stmt)
    (behind : Bool) : Loosens behind (Statement · stmt) tokens := by
  match h with
  | .letStmt hk hn hs hv =>
      refine .cons (by rw [hk]; decide) (.cons (by rw [hn]; decide) (.cons (by rw [hs]; decide) ?_))
      exact (hv.loosens _).mono fun _ => .letStmt hk hn hs
  | .returnStmt hk hv =>
      refine .cons (by rw [hk]; decide) ?_
      exact (hv.loosens _).mono fun _ => .returnStmt hk
  | @Statement.exprStmt first _ _ hv =>
      -- The first token is the statement's own, and no semicolon.
      obtain ⟨_, _, opening, heq, hopening⟩ := hv.exists_opening
      obtain ⟨rfl, -⟩ := List.cons_eq_cons.mp heq
      have hfirst : first.kind ≠ .semicolon :=
        fun hk => by simp [hk, Parser.Opening.ofKind?] at hopening
      exact .cons hfirst ((hv.loosens behind).tail.mono fun _ => .exprStmt)

theorem Statements.loosens {tokens : List Token} {stmts : List Stmt} (h : Statements tokens stmts)
    (behind : Bool) : Loosens behind (Statements · stmts) tokens := by
  match h with
  | .nil => exact .nil
  | .ended hstmt hk hrest =>
      refine .append (hstmt.loosens behind) (.inl (isEnded_statement hstmt _))
        (fun _ hstmt => .ended hstmt hk hrest) ?_
      rw [isEnded_statement hstmt]
      refine .ended hk hrest.mayBegin (fun hfresh => .unended hstmt hfresh hrest) ?_
      exact (hrest.loosens _).mono fun _ => .ended hstmt hk
  | .unended hstmt hnext hrest =>
      refine .append (hstmt.loosens behind) (.inl (isEnded_statement hstmt _))
        (fun _ hstmt => .unended hstmt hnext hrest) ?_
      exact (hrest.loosens _).afresh hnext fun _ => .unended hstmt

end

end ClosureLang.Grammar
