import ClosureLang.Proofs.Calculating.Theorems
import ClosureLang.Proofs.Sessions.Lemmas.Joining

/-!
# Sources of one number

How a number, alone or behind a minus sign, is scanned, parsed and evaluated.
-/

namespace ClosureLang

open Grammar

/-! ## Scanning -/

theorem Spells.scan_eq {kind : Kind} {text : String} (h : Spells kind text) :
    scan text = [⟨kind, text, ⟨0, text.utf8ByteSize⟩⟩] := by
  obtain ⟨c, tail, htext, hc, hl⟩ := h
  have hof : text = String.ofList (c :: tail) := by rw [← htext, String.ofList_toList]
  rw [scan, Scanner.ofString, htext, Scanner.tokens_cons hc, hl, List.drop_length,
    Scanner.tokens_nil, hof, ← byteLength_eq_utf8ByteSize, Nat.zero_add]

theorem Spells.scan_negated {kind : Kind} {text : String} (h : Spells kind text) :
    scan ("-" ++ text) =
      [⟨.minus, "-", ⟨0, 1⟩⟩, ⟨kind, text, ⟨1, 1 + text.utf8ByteSize⟩⟩] := by
  have hapart : Apart "-".toList text.toList := by
    intro c hc d _
    obtain rfl : '-' = c := by simpa using hc
    exact merges_eq_false_of_left (by decide) d
  have hsign : scan "-" = [⟨.minus, "-", ⟨0, 1⟩⟩] := by decide +kernel
  have hplace : shifted "-".utf8ByteSize ⟨kind, text, ⟨0, text.utf8ByteSize⟩⟩ =
      ⟨1, 1 + text.utf8ByteSize⟩ := by
    rw [shifted, Nat.add_comm text.utf8ByteSize]
    rfl
  rw [scan_append hapart, hsign, h.scan_eq, List.map_singleton, Token.placed, hplace]
  rfl

/-! ## Parsing -/

namespace Parser

variable {α : Type} {s : State}

theorem within_eq_error {activity : Activity} {p : Parser α} {failure : Failure} {s' : State}
    (h : p (s.note (.enter activity)) = .error failure s') :
    within activity p s = .error failure (s'.note (.leave activity)) := by
  rw [within, h]

theorem within_eq {activity : Activity} {p : Parser α} {a : α} {s' : State}
    (h : p (s.note (.enter activity)) = .ok a s') :
    within activity p s = .ok a (s'.note (.leave activity)) := by
  rw [within, h]

theorem integer_eq_error (hv : Integer.ofDigits? s.current.literal = none) :
    integer s = .error .dropped (s.record ⟨s.current, .outOfRange⟩) := by
  rw [integer, current_bind, hv]
  rfl

/-- A statement that begins with a number out of range is dropped for that number. -/
theorem statement_overlong (hk : s.current.kind = .integer)
    (hv : Integer.ofDigits? s.current.literal = none) (depth : Nat) :
    ∃ s', statement (expression (depth + 1)) s = .error .dropped s' ∧ s'.tokens = s.tokens ∧
      s'.finish = s.finish ∧ s'.errors = ⟨s.current, .outOfRange⟩ :: s.errors := by
  let s₁ := s.note (.enter .expressionStatement)
  let s₂ := s₁.note (.enter (.expression .lowest s.current))
  let s₃ := (s₂.record ⟨s.current, .outOfRange⟩).note (.leave (.expression .lowest s.current))
  have hexpr : expression (depth + 1) .lowest s₁ = .error .dropped s₃ := by
    rw [expression, expressionStep, current_bind]
    refine within_eq_error ?_
    rw [show s₁.current = s.current from rfl, hk]
    exact bind_eq_error (integer_eq_error (s := s₂) hv)
  have hstmt : expressionStatement (expression (depth + 1)) s =
      .error .dropped (s₃.note (.leave .expressionStatement)) :=
    within_eq_error ((current_bind _ s₁).trans (bind_eq_error hexpr))
  rw [statement, current_bind, hk]
  exact ⟨_, hstmt, rfl, rfl, rfl⟩

/-- The only statement is dropped, and nothing is left behind it. -/
theorem statements_overlong (hk : s.current.kind = .integer) (ht : s.tokens = [s.current])
    (hv : Integer.ofDigits? s.current.literal = none) {stops : Kind → Bool}
    (hgoes : stops .integer = false) (hstops : stops s.finish.kind = true) (depth : Nat) :
    ∃ s', statements (expression (depth + 1)) stops s = .ok [] s' ∧
      s'.errors = ⟨s.current, .outOfRange⟩ :: s.errors := by
  obtain ⟨s₁, hstmt, htokens, hfinish, herrors⟩ := statement_overlong hk hv depth
  have hadd : addStatement (expression (depth + 1)) [] s = .ok [] s₁.advance := by
    have hattempt : attempt (statement (expression (depth + 1))) s = .ok none s₁ := by
      rw [attempt, hstmt]
    exact bind_eq hattempt
  have hgo : guard (¬ stops s.current.kind) = some () := guard_of (by rw [hk, hgoes]; decide)
  have hstop : guard (¬ stops s₁.advance.current.kind) = (none : Option Unit) := by
    rw [guard_eq_none_iff, State.current, State.tokens_advance, htokens, ht, State.finish_advance,
      hfinish]
    simpa using hstops
  have hloop : loop (fun s => guard (¬ stops s.current.kind))
      (fun _ => addStatement (expression (depth + 1))) [] s = .ok [] s₁.advance := by
    have hrounds : rounds (fun s => guard (¬ stops s.current.kind))
        (fun _ => addStatement (expression (depth + 1))) [s.current] [] s = .ok [] s₁.advance := by
      rw [rounds_of_some hgo]
      exact (bind_eq hadd).trans (rounds_of_none hstop [] [])
    rw [← ht] at hrounds
    exact hrounds
  exact ⟨s₁.advance, bind_eq hloop, herrors⟩

end Parser

/-- A number out of range, alone in a source, leaves an error and nothing else. -/
theorem parse_overlong {source : String} {token : Token} (hscan : scan source = [token])
    (hk : token.kind = .integer) (hv : Integer.ofDigits? token.literal = none) :
    (parse source).program.statements = [] ∧ (parse source).errors = [⟨token, .outOfRange⟩] := by
  let start := (Parser.State.ofString source).note (.enter .program)
  have htokens : start.tokens = [token] := hscan
  have hcurrent : start.current = token := by rw [Parser.State.current, htokens]; rfl
  obtain ⟨s, hstmts, herrors⟩ : ∃ s, Parser.statements (Parser.expression 2)
      (fun kind => kind = .eof) start = .ok [] s ∧ s.errors = [⟨start.current, .outOfRange⟩] :=
    Parser.statements_overlong (by rw [hcurrent, hk]) (by rw [hcurrent, htokens])
      (by rw [hcurrent, hv]) rfl rfl 1
  have hprogram : Parser.program ((scan source).length + 1) (.ofString source) =
      .ok ⟨[]⟩ (s.note (.leave .program)) := by
    rw [hscan]
    exact Parser.within_eq (Parser.bind_eq hstmts)
  rw [hcurrent] at herrors
  rw [parse_eq hprogram]
  exact ⟨rfl, congrArg List.reverse herrors⟩

theorem derives_single {tokens : List Token} {stmt : Stmt} (h : Statement tokens stmt) :
    Derives tokens ⟨[stmt]⟩ := by
  have hstmts : Statements (tokens ++ []) [stmt] := .unended h (by simp) .nil
  rwa [List.append_nil] at hstmts

theorem derives_integer {token : Token} {word : Int64} (hk : token.kind = .integer)
    (hword : word.toInt = Nat.ofDigitChars 10 token.literal.toList 0) :
    Derives [token] ⟨[.exprStmt token (.integer token word)]⟩ := by
  have hprimary : Expression .primary [token] (.integer token word) := .integer hk hword
  exact derives_single (.exprStmt hprimary.loosest)

theorem derives_negated {sign token : Token} {word : Int64} (hs : sign.kind = .minus)
    (hk : token.kind = .integer)
    (hword : word.toInt = Nat.ofDigitChars 10 token.literal.toList 0) :
    Derives [sign, token] ⟨[.exprStmt sign (.prefixed sign .negate (.integer token word))]⟩ := by
  have hprimary : Expression .prefixed [token] (.integer token word) :=
    .tighter (by decide) (.integer hk hword)
  exact derives_single (.exprStmt (Expression.negate hs hprimary).loosest)

/-! ## Evaluating -/

variable {expr : Expr} {token : Token} {word : Int64}

theorem Run.expression_exact (harithmetic : expr.isArithmetic = true)
    (hfits : expr.firstOffence? = none) (hvalue : expr.toInt? = some word.toInt)
    (enter : Block → ScopeId → Run Object) (scope : ScopeId) (s : Run.State) :
    ∃ id s', Run.expression enter expr scope s = .ok (.integer id word) s' := by
  have hcalc : Run.Calculates expr s (Run.expression enter expr scope s) :=
    Run.calculates_expression expr harithmetic s
  generalize Run.expression enter expr scope s = r at hcalc ⊢
  cases hcalc with
  | value _ hexact _ =>
      rw [hvalue] at hexact
      exact ⟨_, _, by rw [Int64.toInt_inj.mp (Option.some.inj hexact)]⟩
  | offence hfirst _ _ =>
      rw [hfits] at hfirst
      cases hfirst

theorem Session.run?_exact {source : String} (herrors : (parse source).errors = [])
    (hprogram : (parse source).program = ⟨[.exprStmt token expr]⟩)
    (harithmetic : expr.isArithmetic = true) (hfits : expr.firstOffence? = none)
    (hvalue : expr.toInt? = some word.toInt) (depth : Nat) (session : Session) :
    ∃ id after, session.run? depth source = some (.value (some (.integer id word)), after) := by
  obtain ⟨id, s, hexpr⟩ := Run.expression_exact harithmetic hfits hvalue (Run.body depth)
    session.scope ⟨session.store, [.statement (.exprStmt token expr)]⟩
  have hstmt : Run.statement (Run.body depth) (.exprStmt token expr) session.scope
      ⟨session.store, []⟩ = .ok (some (.integer id word)) s := by
    rw [Run.statement]
    exact Run.bind_eq hexpr
  have hall : Run.program (Run.body depth) ⟨[.exprStmt token expr]⟩ session.scope
      ⟨session.store, []⟩ = .ok (some (.integer id word)) s := by
    have hsequence : Run.sequence (Run.body depth) [.exprStmt token expr] none session.scope
        ⟨session.store, []⟩ = .ok (some (.integer id word)) s := by
      rw [Run.sequence]
      exact Run.bind_eq hstmt
    exact Run.bind_eq hsequence
  have hnode : (Node.program (parse source).program).run depth session.scope ⟨session.store, []⟩ =
      .ok (some (.integer id word)) s := by
    rw [hprogram, Node.run, Run.settle_eq, hall]
  refine ⟨id, ⟨s.store, session.scope⟩, ?_⟩
  rw [Session.run?, herrors, Node.evaluate?, hnode]
  rfl

end ClosureLang
