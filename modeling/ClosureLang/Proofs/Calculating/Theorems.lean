import ClosureLang.Proofs.Calculating.Exact
import ClosureLang.Proofs.Running.Lemmas.Outcomes

/-!
# Arithmetic is exact or reported
-/

namespace ClosureLang

namespace Run

variable {enter : Block → ScopeId → Run Object} {scope : ScopeId} {s : State} {op : InfixOp}

/-- The exact value, or what is reported of the first part that does not fit. The scopes stay. -/
inductive Calculates (expr : Expr) (s : State) : EStateM.Result Stop State Object → Prop
  | value {id word s'} :
      expr.firstOffence? = none → expr.toInt? = some word.toInt →
      s'.store.scopes = s.store.scopes → Calculates expr s (.ok (.integer id word) s')
  | offence {part error s'} :
      expr.firstOffence? = some part → part.offence? = some error.message →
      s'.store.scopes = s.store.scopes → Calculates expr s (.error (.raised error) s')

namespace Calculates

variable {expr left right : Expr} {s' : State} {token : Token}

theorem exact {value : Int} {operation : String}
    (hfirst : expr.firstOffence? = if expr.fits then none else some expr)
    (hexact : expr.toInt? = some value)
    (hoffence : expr.offence? = some ("integer overflow: " ++ operation))
    (hs : s'.store.scopes = s.store.scopes) : Calculates expr s (Run.exact value operation s') := by
  rw [Expr.fits_eq_of_exact hexact] at hfirst
  rw [Run.exact]
  cases hword : Integer.ofInt? value with
  | some word =>
      rw [hword] at hfirst
      rw [← Integer.ofInt?_eq_some_iff.mp hword] at hexact
      exact .value hfirst hexact hs
  | none =>
      rw [hword] at hfirst
      exact .offence hfirst hoffence hs

theorem negated (id : ObjectId) {word : Int64} (hfirst : right.firstOffence? = none)
    (hright : right.toInt? = some word.toInt) (hs : s'.store.scopes = s.store.scopes) :
    Calculates (.prefixed token .negate right) s
      (applyPrefix .negate (.integer id word) s') := by
  refine exact ?_ ?_ ?_ hs
  · rw [Expr.firstOffence?_prefixed, hfirst, Option.none_or]
  · rw [Expr.toInt?, hright, Option.map_some]
  · rw [Expr.offence?, hright, Option.map_some, ← String.append_assoc]
    rfl

theorem operated {wl wr : Int64} (hop : op.isArithmetic = true)
    (hfirst : left.firstOffence? = none) (hfirst' : right.firstOffence? = none)
    (hleft : left.toInt? = some wl.toInt) (hright : right.toInt? = some wr.toInt)
    (hs : s'.store.scopes = s.store.scopes) :
    Calculates (.infixed token left op right) s (applyIntegers op wl wr s') := by
  have hwhole : (Expr.infixed token left op right).firstOffence? =
      if (Expr.infixed token left op right).fits then none
      else some (.infixed token left op right) := by
    rw [Expr.firstOffence?_infixed, hfirst, hfirst', Option.none_or, Option.none_or]
  have hexact := Expr.toInt?_infixed op token hleft hright
  have hoffence := Expr.offence?_infixed op token hleft hright
  have hoverflow (hne : ¬ (op = .divide ∧ wr.toInt = 0)) :
      (Expr.infixed token left op right).offence? = some ("integer overflow: " ++
        (Integer.text wl ++ " " ++ op.symbol ++ " " ++ Integer.text wr)) := by
    rw [hoffence, if_neg hne]
    simp only [Integer.text, String.append_assoc]
  cases op with
  | add | subtract | multiply => exact exact hwhole hexact (hoverflow (by simp)) hs
  | divide =>
      rw [applyIntegers]
      by_cases hzero : wr.toInt = 0
      · rw [InfixOp.onInts?, if_pos hzero] at hexact
        rw [if_pos ⟨rfl, hzero⟩] at hoffence
        rw [Expr.fits, hexact] at hwhole
        rw [if_pos hzero]
        exact .offence hwhole hoffence hs
      · rw [InfixOp.onInts?, if_neg hzero] at hexact
        rw [if_neg hzero]
        exact exact hwhole hexact (hoverflow (by simp [hzero])) hs
  | _ => cases hop

/-- What is reported of an operand is what is reported of the whole. -/
theorem bind {operand whole : Expr} {p : Run Object} {f : Object → Run Object}
    (hp : Calculates operand s' (p s')) (hs : s'.store.scopes = s.store.scopes)
    (hwhole : ∀ part, operand.firstOffence? = some part → whole.firstOffence? = some part)
    (hf : ∀ id word s₁, operand.firstOffence? = none → operand.toInt? = some word.toInt →
      s₁.store.scopes = s.store.scopes → Calculates whole s (f (.integer id word) s₁)) :
    Calculates whole s ((p >>= f) s') := by
  simp only [Bind.bind, EStateM.bind]
  generalize p s' = r at hp ⊢
  cases hp with
  | value hfirst hexact hs₁ => exact hf _ _ _ hfirst hexact (hs₁.trans hs)
  | offence hfirst hoffence hs₁ => exact .offence (hwhole _ hfirst) hoffence (hs₁.trans hs)

end Calculates

theorem calculates_expression : (expr : Expr) → expr.isArithmetic = true → (s : State) →
    Calculates expr s (expression enter expr scope s)
  | .integer _ _, _, _ => .value (Expr.firstOffence?_integer _ _) rfl rfl
  | .prefixed _ op right, h, s => by
      obtain ⟨hop, hright⟩ := Bool.and_eq_true_iff.mp h
      obtain rfl : op = .negate := of_decide_eq_true hop
      refine (calculates_expression right hright s).bind rfl ?_ fun id _ _ hfirst hexact hs =>
        .negated id hfirst hexact hs
      intro part hpart
      rw [Expr.firstOffence?_prefixed, hpart, Option.some_or]
  | .infixed _ left op right, h, s => by
      obtain ⟨h, hright⟩ := Bool.and_eq_true_iff.mp h
      obtain ⟨hop, hleft⟩ := Bool.and_eq_true_iff.mp h
      refine (calculates_expression left hleft s).bind rfl ?_ fun _ wl s₁ hfirst hexact hs₁ => ?_
      · intro part hpart
        rw [Expr.firstOffence?_infixed, hpart, Option.some_or, Option.some_or]
      · refine (calculates_expression right hright _).bind hs₁ ?_
          fun _ wr s₂ hfirst' hexact' hs₂ => .operated hop hfirst hfirst' hexact hexact' hs₂
        intro part hpart
        rw [Expr.firstOffence?_infixed, hfirst, hpart, Option.none_or, Option.some_or]

end Run

/-- An arithmetic expression gives its exact value if every part of it has one of 64 bits. Otherwise
the first part that has none, in the order of evaluation, is reported. -/
theorem arithmetic_is_exact_or_reported {expr : Expr} (h : expr.isArithmetic = true) (depth : Nat)
    (scope : ScopeId) (store : Store) :
    ∃ result, (Node.expression expr).evaluate? depth scope store = some result ∧
      result.store.scopes = store.scopes ∧
      match expr.firstOffence? with
      | none => ∃ id word, result.value = some (.integer id word) ∧ expr.toInt? = some word.toInt
      | some part => ∃ id message, result.value = some (.error id message) ∧
          part.offence? = some message := by
  have hcalc : Run.Calculates expr ⟨store, []⟩
      (Run.expression (Run.body depth) expr scope ⟨store, []⟩) :=
    Run.calculates_expression expr h _
  have hrun : (Node.expression expr).run depth scope =
      Run.settle (some <$> Run.expression (Run.body depth) expr scope) := rfl
  rw [Node.evaluate?, hrun, Run.settle_eq]
  simp only [Functor.map, EStateM.map]
  generalize Run.expression (Run.body depth) expr scope ⟨store, []⟩ = r at hcalc ⊢
  cases hcalc with
  | @value id word _ hfirst hexact hs =>
      rw [hfirst]
      exact ⟨_, rfl, hs, id, word, rfl, hexact⟩
  | @offence _ error s hfirst hoffence hs =>
      rw [hfirst]
      exact ⟨_, rfl, hs, s.store.newId.1, error.message, rfl, hoffence⟩

/-- The sum of the largest integer and one. -/
def onePast : Expr :=
  .infixed (.eof 0) (.integer (.eof 0) Int64.maxValue) .add (.integer (.eof 0) 1)

/-- One, divided by nothing: the divisor is zero times that sum. -/
def dividedByPast : Expr :=
  .infixed (.eof 0) (.integer (.eof 0) 1) .divide
    (.infixed (.eof 0) (.integer (.eof 0) 0) .multiply onePast)

/-- The sum comes before the division. -/
theorem divided_by_past_overflows :
    dividedByPast.isArithmetic = true ∧
      ∃ result, (Node.expression dividedByPast).evaluate? 0 0 Store.empty = some result ∧
        result.store.scopes = Store.empty.scopes ∧
        ∃ id, result.value =
          some (.error id "integer overflow: 9223372036854775807 + 1") := by
  have harithmetic : dividedByPast.isArithmetic = true := rfl
  obtain ⟨result, hresult, hscopes, hvalue⟩ :=
    arithmetic_is_exact_or_reported harithmetic 0 0 Store.empty
  have hfirst : dividedByPast.firstOffence? = some onePast := rfl
  have hoffence : onePast.offence? = some "integer overflow: 9223372036854775807 + 1" := by
    decide +kernel
  rw [hfirst] at hvalue
  obtain ⟨id, message, hvalue, hmessage⟩ := hvalue
  cases hmessage.symm.trans hoffence
  exact ⟨harithmetic, result, hresult, hscopes, id, hvalue⟩

end ClosureLang
