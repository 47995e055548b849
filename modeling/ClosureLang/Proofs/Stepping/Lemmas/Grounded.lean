import ClosureLang.Proofs.Stepping.Grounded
import ClosureLang.Proofs.Stepping.Lemmas.Flow

/-!
# Steps stay grounded

A step that begins grounded ends so, and the steps that it comes to begin so. The induction is on
the order in which steps begin others, with one lemma for each kind of part.
-/

namespace ClosureLang

variable {α β : Type} {P : Object → Prop} {Q : Nat → α → Prop} {R : Nat → β → Prop}
  {depth : Nat} {scope : ScopeId} {s s' : Run.State} {value : Object} {store : Store}

/-! ## Values -/

theorem Object.Rooted.mono {size size' : Nat} (h : value.Rooted size) (hle : size ≤ size') :
    value.Rooted size' := by
  induction value with
  | function _ _ => exact Nat.lt_of_lt_of_le h hle
  | returned _ _ ih => exact ih h
  | _ => trivial

namespace Object.Grounded

theorem mono {size size' : Nat} (h : value.Grounded P size) (hle : size ≤ size') :
    value.Grounded P size' :=
  ⟨h.rooted.mono hle, h.throughout⟩

theorem unwrapped {size : Nat} (h : value.Grounded P size) : value.unwrapped.Grounded P size := by
  cases value with
  | returned id inner => exact ⟨h.rooted, h.throughout.2⟩
  | _ => exact h

theorem returned {size : Nat} {id : ObjectId} (h : value.Grounded P size)
    (hmade : P (.returned id value)) : (Object.returned id value).Grounded P size :=
  ⟨h.rooted, hmade, h.throughout⟩

end Object.Grounded

namespace Store.Grounded

theorem empty : Grounded P Store.empty :=
  ⟨nofun, nofun⟩

theorem get? {name : String} (h : store.Grounded P) (hv : store.get? scope name = some value) :
    value.Grounded P store.scopes.size := by
  obtain ⟨i, -, hlocal⟩ :=
    exists_getLocal? (P := fun _ => True) (fun _ _ _ _ => trivial) trivial hv
  exact h.bound i name value hlocal

theorem newId (h : store.Grounded P) : store.newId.2.Grounded P :=
  ⟨h.outer_lt, h.bound⟩

theorem newScope {outer : Option ScopeId} (h : store.Grounded P)
    (houter : ∀ i ∈ outer, i < store.scopes.size) : (store.newScope outer).2.Grounded P where
  outer_lt i j hj := by
    rw [outer?_newScope] at hj
    split at hj
    · next hi => exact hi ▸ houter j hj
    · exact h.outer_lt i j hj
  bound i name value hv := by
    rw [getLocal?_newScope] at hv
    exact (h.bound i name value hv).mono (by simp)

theorem set {name : String} (h : store.Grounded P) (hv : value.Grounded P store.scopes.size) :
    (store.set scope name value).Grounded P where
  outer_lt i j hj := h.outer_lt i j (by simpa using hj)
  bound i other value' hv' := by
    rw [size_set]
    rw [getLocal?_set] at hv'
    split at hv'
    · cases hv'
      exact hv
    · exact h.bound i other value' hv'

end Store.Grounded

namespace Run.State.Grounded

theorem noted {event : Event} (h : s.Grounded P)
    (he : ∀ how value, event = .use how value → value.Grounded P s.store.scopes.size) :
    (s.noted event).Grounded P where
  store := h.store
  used how value hmem := by
    rcases List.mem_cons.mp hmem with heq | hmem
    · exact he how value heq.symm
    · exact h.used how value hmem

theorem notedOther {event : Event} (h : s.Grounded P) (he : ∀ how value, event ≠ .use how value) :
    (s.noted event).Grounded P :=
  h.noted fun how value heq => absurd heq (he how value)

theorem usedValue {how : Use} (h : s.Grounded P) (hv : value.Grounded P s.store.scopes.size) :
    (s.used how value).Grounded P := by
  refine h.noted fun how' value' heq => ?_
  cases heq
  exact hv

theorem of_store {store : Store} (h : s.Grounded P) (hstore : store.Grounded P)
    (hle : s.store.scopes.size ≤ store.scopes.size) : ({ s with store } : State).Grounded P :=
  ⟨hstore, fun how value hmem => (h.used how value hmem).mono hle⟩

theorem newId (h : s.Grounded P) : ({ s with store := s.store.newId.2 } : State).Grounded P :=
  h.of_store h.store.newId (Nat.le_refl _)

end Run.State.Grounded

/-! ## Runs -/

namespace Run

/-- However a run ends, it has kept the property and lost no scope, and `Q` holds of a result. -/
def Lands (P : Object → Prop) (Q : Nat → α → Prop) (s : State) (r : EStateM.Result Stop State α) :
    Prop :=
  Outcome (fun a s' => s'.Grounded P ∧ s.store.scopes.size ≤ s'.store.scopes.size ∧
      Q s'.store.scopes.size a)
    (fun _ s' => s'.Grounded P ∧ s.store.scopes.size ≤ s'.store.scopes.size) r

namespace Lands

theorem ok {a : α} (h : s'.Grounded P) (hle : s.store.scopes.size ≤ s'.store.scopes.size)
    (ha : Q s'.store.scopes.size a) : Lands P Q s (.ok a s') :=
  Outcome.ok ⟨h, hle, ha⟩

theorem refl {a : α} (h : s.Grounded P) (ha : Q s.store.scopes.size a) : Lands P Q s (.ok a s) :=
  ok h (Nat.le_refl _) ha

theorem stop {stop : Stop} (h : s.Grounded P) : Lands P Q s (.error stop s) :=
  Outcome.error ⟨h, Nat.le_refl _⟩

theorem of_ok {r : EStateM.Result Stop State α} {a : α} (h : Lands P Q s r) (hr : r = .ok a s') :
    s'.Grounded P ∧ s.store.scopes.size ≤ s'.store.scopes.size ∧ Q s'.store.scopes.size a := by
  subst hr
  cases h with | ok h => exact h

theorem ending {r : EStateM.Result Stop State α} (h : Lands P Q s r) : (ending r).Grounded P := by
  cases h with
  | ok h => exact h.1
  | error h => exact h.1

/-- What comes behind may use that the first part has come to its result. -/
theorem bind {p : Run α} {f : α → Run β} (hp : Lands P Q s (p s))
    (hf : ∀ a s', p s = .ok a s' →
      s'.Grounded P ∧ s.store.scopes.size ≤ s'.store.scopes.size ∧ Q s'.store.scopes.size a →
      Lands P R s' (f a s')) :
    Lands P R s ((p >>= f) s) := by
  simp only [Bind.bind, EStateM.bind]
  cases hr : p s with
  | error stop s' =>
      rw [hr] at hp
      cases hp with | error h => exact Outcome.error h
  | ok a s' =>
      have h := hp.of_ok hr
      refine Outcome.mono (hf a s' hr h) (fun _ _ h' => ?_) (fun _ _ h' => ?_)
      · exact ⟨h'.1, Nat.le_trans h.2.1 h'.2.1, h'.2.2⟩
      · exact ⟨h'.1, Nat.le_trans h.2.1 h'.2⟩

theorem use_bind {how : Use} {f : Object → Run β}
    (h : Lands P R (s.used how value) (f value (s.used how value))) :
    Lands P R s ((use how value >>= f) s) := h

theorem note_bind {event : Event} {f : Unit → Run β}
    (h : Lands P R (s.noted event) (f () (s.noted event))) :
    Lands P R s ((note event >>= f) s) := h

theorem lookup (h : s.Grounded P) (name : String) :
    Lands P (Object.Grounded P) s (Run.lookup scope name s) := by
  rw [lookup_eq]
  cases hv : s.store.get? scope name with
  | some value => exact refl h (h.store.get? hv)
  | none => exact stop h

theorem newInteger (hP : Object.Basic P) (h : s.Grounded P) (value : Int64) :
    Lands P (Object.Grounded P) s (Run.newInteger value s) :=
  ok h.newId (Nat.le_refl _) ⟨trivial, hP.integer _ value⟩

theorem ofBool (hP : Object.Basic P) (h : s.Grounded P) (value : Bool) :
    Lands P (Object.Grounded P) s (.ok (.ofBool value) s) :=
  refl h ⟨trivial, hP.ofBool value⟩

theorem sharedNull (hP : Object.Basic P) (h : s.Grounded P) :
    Lands P (Object.Grounded P) s (.ok .sharedNull s) :=
  refl h ⟨trivial, hP.sharedNull⟩

theorem operation {run : Run Object} (hP : Object.Basic P) (h : s.Grounded P)
    (hrun : IsOperation run) : Lands P (Object.Grounded P) s (run s) := by
  cases hrun with
  | boolean value => exact ofBool hP h value
  | integer value => exact newInteger hP h value
  | raise error => exact stop h

theorem newScope {outer : Option ScopeId} (h : s.Grounded P)
    (houter : ∀ i ∈ outer, i < s.store.scopes.size) :
    Lands P (fun size inside => inside < size) s (Run.newScope outer s) := by
  have hsize := s.store.size_newScope outer
  have hle : s.store.scopes.size ≤ (s.store.newScope outer).2.scopes.size :=
    Nat.le_trans (Nat.le_succ _) (Nat.le_of_eq hsize.symm)
  exact .ok (h.of_store (h.store.newScope houter) hle) hle
    (Nat.lt_of_lt_of_eq (Nat.lt_succ_self _) hsize.symm)

theorem binding {name : String} (h : s.Grounded P) (hv : value.Grounded P s.store.scopes.size) :
    Lands P (fun _ _ => True) s (Run.bind scope name value s) := by
  have hle := Nat.le_of_eq (s.store.size_set scope name value).symm
  exact .ok ((h.usedValue hv).of_store (h.store.set hv) hle) hle trivial

theorem bindParameters : (parameters : List Identifier) → (values : List Object) → {s : State} →
    s.Grounded P → Object.AllGrounded P s.store.scopes.size values →
    Lands P (fun _ _ => True) s (Run.bindParameters scope parameters values s)
  | [], [], _, h, _ | [], _ :: _, _, h, _ | _ :: _, [], _, h, _ => refl h trivial
  | _ :: parameters, _ :: values, _, h, hvalues =>
      bind (binding h (hvalues _ List.mem_cons_self)) fun _ _ _ hs' =>
        bindParameters parameters values hs'.1 fun value hmem =>
          (hvalues value (List.mem_cons_of_mem _ hmem)).mono hs'.2.1

theorem prepare {closure : Closure} {values : List Object} (h : s.Grounded P)
    (hscope : closure.scope < s.store.scopes.size)
    (hvalues : Object.AllGrounded P s.store.scopes.size values) :
    Lands P (fun size inside => inside < size) s (Run.prepare closure values s) := by
  refine note_bind (bind (newScope (h.notedOther (by simp)) ?_) fun inside s₁ _ hs₁ => ?_)
  · exact fun i hi => Option.mem_some_iff.mp hi ▸ hscope
  · have hvalues' : Object.AllGrounded P s₁.store.scopes.size values :=
      fun value hmem => (hvalues value hmem).mono hs₁.2.1
    refine bind (bindParameters closure.parameters values hs₁.1 hvalues') fun _ s₂ _ hs₂ => ?_
    exact refl hs₂.1 (Nat.lt_of_lt_of_le hs₁.2.2 hs₂.2.1)

end Lands

end Run

namespace Step

variable {step part : Step} {k : Nat}

/-- The step ends grounded, and so does what it comes to. -/
def Safe (P : Object → Prop) (step : Step) : Prop :=
  match step with
  | ⟨depth, .expression expr, scope, s⟩ =>
    Run.Lands P (Object.Grounded P) s (Run.expression (Run.body depth) expr scope s)
  | ⟨depth, .arguments exprs, scope, s⟩ =>
    Run.Lands P (Object.AllGrounded P) s (Run.expressions (Run.body depth) exprs scope s)
  | ⟨depth, .call callee values, _, s⟩ =>
    Run.Lands P (Object.Grounded P) s (Run.call (Run.body depth) callee values s)
  | ⟨depth, .statement stmt, scope, s⟩ =>
    Run.Lands P (Object.AllGrounded P) s (Run.statement (Run.body depth) stmt scope s)
  | ⟨depth, .statements stmts last, scope, s⟩ =>
    Run.Lands P (Object.AllGrounded P) s (Run.sequence (Run.body depth) stmts last scope s)
  | ⟨depth, .block stmts, scope, s⟩ =>
    Run.Lands P (Object.Grounded P) s (Run.block (Run.body depth) stmts scope s)

/-! ## The parts of a step -/

/-- A part begins grounded if those in front of it end so. -/
theorem Begins.grounded (hbegins : Begins k step part) (h : step.Grounded P)
    (hbefore : ∀ j < k, ∀ before, Begins j step before → before.Safe P) : part.Grounded P := by
  have hmakes : ∀ step' made, part.Comes step' → step'.Makes made → P made :=
    fun step' made hcomes => h.makes step' made (.begins hbegins hcomes)
  cases hbegins
  case operand | left | condition | callee | argument | statement =>
    exact ⟨h.scope_lt, h.state, trivial, hmakes⟩
  case statements => exact ⟨h.scope_lt, h.state, nofun, hmakes⟩
  case bound | returned | expression =>
    exact ⟨h.scope_lt, h.state.notedOther (by simp), trivial, hmakes⟩
  case right hl =>
    obtain ⟨hs₁, hle, hl⟩ := Run.Lands.of_ok (hbefore 0 (by decide) _ .left) hl
    exact ⟨Nat.lt_of_lt_of_le h.scope_lt hle, hs₁.usedValue hl, trivial, hmakes⟩
  case consequence hc _ | alternative hc _ =>
    obtain ⟨hs₁, hle, hc⟩ := Run.Lands.of_ok (hbefore 0 (by decide) _ .condition) hc
    exact ⟨Nat.lt_of_lt_of_le h.scope_lt hle, hs₁.usedValue hc, trivial, hmakes⟩
  case arguments hf =>
    obtain ⟨hs₁, hle, hf⟩ := Run.Lands.of_ok (hbefore 0 (by decide) _ .callee) hf
    exact ⟨Nat.lt_of_lt_of_le h.scope_lt hle, hs₁.usedValue hf, trivial, hmakes⟩
  case call hf hvalues =>
    obtain ⟨hs₁, hle, hf'⟩ := Run.Lands.of_ok (hbefore 0 (by decide) _ .callee) hf
    obtain ⟨hs₂, hle', hvalues⟩ :=
      Run.Lands.of_ok (hbefore 1 (by decide) _ (.arguments hf)) hvalues
    exact ⟨Nat.lt_of_lt_of_le h.scope_lt (Nat.le_trans hle hle'), hs₂, ⟨hf'.mono hle', hvalues⟩,
      hmakes⟩
  case moreArguments hv =>
    obtain ⟨hs₁, hle, hv⟩ := Run.Lands.of_ok (hbefore 0 (by decide) _ .argument) hv
    exact ⟨Nat.lt_of_lt_of_le h.scope_lt hle, hs₁.usedValue hv, trivial, hmakes⟩
  case body hprepare =>
    obtain ⟨hs₁, -, hlt⟩ := (Run.Lands.prepare h.state h.part.1.rooted h.part.2).of_ok hprepare
    exact ⟨hlt, hs₁, trivial, hmakes⟩
  case moreStatements hv _ =>
    obtain ⟨hs₁, hle, hv⟩ := Run.Lands.of_ok (hbefore 0 (by decide) _ .statement) hv
    exact ⟨Nat.lt_of_lt_of_le h.scope_lt hle, hs₁, hv, hmakes⟩

/-! ## The end of a step -/

section

variable (hP : Object.Basic P)
include hP

theorem safe_expression {expr : Expr} (h : Grounded P ⟨depth, .expression expr, scope, s⟩)
    (ih : ∀ k part, Begins k ⟨depth, .expression expr, scope, s⟩ part → part.Safe P) :
    Run.Lands P (Object.Grounded P) s (Run.expression (Run.body depth) expr scope s) := by
  cases expr with
  | identifier name => exact .lookup h.state name.name
  | integer _ value => exact .newInteger hP h.state value
  | boolean _ value => exact .ofBool hP h.state value
  | function _ _ _ =>
      exact .ok h.state.newId (Nat.le_refl _) ⟨h.scope_lt, h.makes _ _ .refl .function⟩
  | prefixed _ op right =>
      refine .bind (ih 0 _ .operand) fun r s₁ hr ⟨hs₁, _, hvalue⟩ => .use_bind ?_
      exact .operation hP (hs₁.usedValue hvalue) (Run.isOperation_applyPrefix op r)
  | infixed _ left op right =>
      refine .bind (ih 0 _ .left) fun l s₁ hl _ => .use_bind ?_
      refine .bind (ih 1 _ (.right hl)) fun r s₂ _ ⟨hs₂, _, hvalue⟩ => .use_bind ?_
      exact .operation hP (hs₂.usedValue hvalue) (Run.isOperation_applyInfix op l r)
  | conditional _ condition consequence alternative =>
      refine .bind (ih 0 _ .condition) fun c s₁ hc ⟨hs₁, _, hvalue⟩ => .use_bind ?_
      cases htruth : c.isTruthy with
      | true => exact ih 1 _ (.consequence hc htruth)
      | false =>
          cases alternative with
          | none => exact .sharedNull hP (hs₁.usedValue hvalue)
          | some alternative => exact ih 1 _ (.alternative hc htruth)
  | call _ callee arguments =>
      refine .bind (ih 0 _ .callee) fun f s₁ hf _ => .use_bind ?_
      exact .bind (ih 1 _ (.arguments hf)) fun values s₂ hvalues _ => ih 2 _ (.call hf hvalues)

theorem safe_block {stmts : Block}
    (ih : ∀ k part, Begins k ⟨depth, .block stmts, scope, s⟩ part → part.Safe P) :
    Run.Lands P (Object.Grounded P) s (Run.block (Run.body depth) stmts scope s) := by
  obtain ⟨token, stmts⟩ := stmts
  refine .bind (ih 0 _ .statements) fun value s₁ _ ⟨hs₁, _, hvalue⟩ => ?_
  cases value with
  | some value => exact .refl hs₁ (hvalue value rfl)
  | none => exact .sharedNull hP hs₁

end

theorem safe_arguments {exprs : List Expr} (h : Grounded P ⟨depth, .arguments exprs, scope, s⟩)
    (ih : ∀ k part, Begins k ⟨depth, .arguments exprs, scope, s⟩ part → part.Safe P) :
    Run.Lands P (Object.AllGrounded P) s (Run.expressions (Run.body depth) exprs scope s) := by
  cases exprs with
  | nil => exact .refl h.state nofun
  | cons expr exprs =>
      refine .bind (ih 0 _ .argument) fun value s₁ hv ⟨_, _, hvalue⟩ => .use_bind ?_
      refine .bind (ih 1 _ (.moreArguments hv)) fun values s₂ _ ⟨hs₂, hle, hvalues⟩ => ?_
      exact .refl hs₂ (List.forall_mem_cons.mpr ⟨hvalue.mono hle, hvalues⟩)

theorem safe_call {callee : Object} {values : List Object}
    (h : Grounded P ⟨depth, .call callee values, scope, s⟩)
    (ih : ∀ k part, Begins k ⟨depth, .call callee values, scope, s⟩ part → part.Safe P) :
    Run.Lands P (Object.Grounded P) s (Run.call (Run.body depth) callee values s) := by
  cases callee with
  | function id closure =>
      by_cases hlength : closure.parameters.length = values.length
      · rw [Run.call_function_eq hlength]
        refine .bind (.prepare h.state h.part.1.rooted h.part.2) fun inside s₁ hprepare hs₁ => ?_
        cases depth with
        | zero => exact .stop hs₁.1
        | succ depth =>
            refine .bind (ih 0 _ (.body hlength hprepare)) fun result s₂ _ ⟨hs₂, _, hvalue⟩ => ?_
            exact .refl hs₂ hvalue.unwrapped
      · rw [Run.call, if_pos hlength]
        exact .stop h.state
  | _ => exact .stop h.state

theorem safe_statement {stmt : Stmt} (h : Grounded P ⟨depth, .statement stmt, scope, s⟩)
    (ih : ∀ k part, Begins k ⟨depth, .statement stmt, scope, s⟩ part → part.Safe P) :
    Run.Lands P (Object.AllGrounded P) s (Run.statement (Run.body depth) stmt scope s) := by
  cases stmt with
  | letStmt _ name _ =>
      refine .note_bind (.bind (ih 0 _ .bound) fun value s₁ _ ⟨hs₁, _, hvalue⟩ => ?_)
      exact .bind (.binding hs₁ hvalue) fun _ _ _ hs₂ => .refl hs₂.1 nofun
  | returnStmt _ _ =>
      refine .note_bind (.bind (ih 0 _ .returned) fun value s₁ hv ⟨hs₁, _, hvalue⟩ => .use_bind ?_)
      have hmade := h.makes _ _ .refl (.returned hv)
      refine .ok (hs₁.usedValue hvalue).newId (Nat.le_refl _) fun made hmem => ?_
      obtain rfl := Option.mem_some_iff.mp hmem
      exact hvalue.returned hmade
  | exprStmt _ _ =>
      refine .note_bind (.bind (ih 0 _ .expression) fun value s₁ _ ⟨hs₁, _, hvalue⟩ => ?_)
      exact .refl hs₁ fun made hmem => Option.mem_some_iff.mp hmem ▸ hvalue

theorem safe_statements {stmts : List Stmt} {last : Option Object}
    (h : Grounded P ⟨depth, .statements stmts last, scope, s⟩)
    (ih : ∀ k part, Begins k ⟨depth, .statements stmts last, scope, s⟩ part → part.Safe P) :
    Run.Lands P (Object.AllGrounded P) s (Run.sequence (Run.body depth) stmts last scope s) := by
  cases stmts with
  | nil => exact .refl h.state h.part
  | cons stmt stmts =>
      rw [Run.sequence_cons]
      refine .bind (ih 0 _ .statement) fun value s₁ hv ⟨hs₁, _, hvalue⟩ => ?_
      split
      · next hgo => exact ih 1 _ (.moreStatements hv hgo)
      · exact .refl hs₁ hvalue

/-- By induction on the order in which steps begin others: the parts in front are safe, so the next
one begins grounded, and is safe as well. -/
theorem Grounded.safe (hP : Object.Basic P) (step : Step) (h : step.Grounded P) : step.Safe P := by
  have hparts (k : Nat) : ∀ part, Begins k step part → part.Safe P := by
    induction k using Nat.strongRecOn with
    | ind k ih =>
        intro part hbegins
        have hlex := hbegins.lex
        exact Grounded.safe hP part (hbegins.grounded h ih)
  obtain ⟨depth, part, scope, s⟩ := step
  cases part with
  | expression expr => exact safe_expression hP h hparts
  | arguments exprs => exact safe_arguments h hparts
  | call callee values => exact safe_call h hparts
  | statement stmt => exact safe_statement h hparts
  | statements stmts last => exact safe_statements h hparts
  | block stmts => exact safe_block hP hparts
termination_by (step.depth, step.part.size)
decreasing_by exact Prod.lex_def.mpr hlex

theorem Safe.ending (h : step.Safe P) : step.ending.Grounded P := by
  have hending {α : Type} {Q : Nat → α → Prop} {s : Run.State} {run : Run α}
      (h : Run.Lands P Q s (run s)) : (Run.ending (Run.forget run s)).Grounded P := by
    rw [Run.ending_forget]
    exact h.ending
  obtain ⟨depth, part, scope, s⟩ := step
  cases part with
  | expression | arguments | call | statement | statements | block => exact hending h

theorem Grounded.begins (hP : Object.Basic P) (h : step.Grounded P) (hbegins : Begins k step part) :
    part.Grounded P := by
  induction k using Nat.strongRecOn generalizing part with
  | ind k ih => exact hbegins.grounded h fun j hj before hbefore => (ih j hj hbefore).safe hP

theorem Grounded.comes (hP : Object.Basic P) (h : step.Grounded P) (hcomes : step.Comes part) :
    part.Grounded P := by
  induction hcomes with
  | refl => exact h
  | begins hbegins _ ih => exact ih (h.begins hP hbegins)

end Step

end ClosureLang
