import ClosureLang.Proofs.Failing.Theorems
import ClosureLang.Proofs.Running.Lemmas.Journals
import ClosureLang.Proofs.Stepwise.Each

/-!
# Programs and blocks are statements one at a time

Inside a program a failure is not an object, and what is returned is. From one statement to the next
the caller can tell either from the object of the answer, because no value is an error.
-/

namespace ClosureLang

variable {depth : Nat} {scope : ScopeId} {store : Store} {S : ScopeId → Prop}

/-! ## What a run gives to the caller -/

/-- There is nothing if a run goes too deep. -/
def Run.evaluation? : EStateM.Result Stop State (Option Object) → Option Evaluation
  | .ok value s => some ⟨value, s.store, s.journal.reverse⟩
  | .error _ _ => none

theorem Node.evaluate?_eq (node : Node) :
    node.evaluate? depth scope store = Run.evaluation? (node.run depth scope ⟨store, []⟩) := by
  rw [evaluate?]
  cases node.run depth scope ⟨store, []⟩ <;> rfl

namespace Run

theorem evaluation?_ok (value : Option Object) (s : State) :
    evaluation? (.ok value s) = some ⟨value, s.store, s.journal.reverse⟩ := rfl

theorem evaluation?_onTop (older : List Event) (r : EStateM.Result Stop State (Option Object)) :
    evaluation? (onTop older r) =
      (evaluation? r).map fun rest => { rest with journal := older.reverse ++ rest.journal } := by
  cases r with
  | ok value s =>
      simp only [onTop, evaluation?, Option.map_some, List.reverse_append]
  | error stop s => rfl

/-- What a caller makes of the answer does not depend on whether it is one of a run or an error. -/
theorem evaluation?_settle_map {run : Run (Option Object)} {f : Option Object → Option Object}
    (hf : ∀ id message, f (some (.error id message)) = some (.error id message)) (s : State) :
    evaluation? (settle (f <$> run) s) =
      (evaluation? (settle run s)).map fun result => { result with value := f result.value } := by
  rw [settle_eq, settle_eq]
  simp only [Functor.map, EStateM.map]
  cases run s with
  | ok value s' => rfl
  | error stop s' =>
      cases stop with
      | raised error => simp only [evaluation?, Option.map_some, hf]
      | tooDeep => rfl

/-! ## Statements in turn -/

theorem any_ends_eq {value : Option Object} (h : ∀ object ∈ value, object.isError = false) :
    value.any Object.ends = ! goesOn value := by
  match value with
  | some (.error _ _) => cases h _ rfl
  | none | some (.returned _ _) | some (.integer _ _) | some (.boolean _ _) | some (.null _)
  | some (.function _ _) => rfl

theorem settle_bind {α : Type} {p : Run α} {f : α → Run (Option Object)} {a : α} {s s' : State}
    (h : p s = .ok a s') : settle (p >>= f) s = settle (f a) s' := by
  rw [settle_eq, settle_eq, bind_eq h]

/-- A block without a value is null. -/
theorem block_eq_map (enter : Block → ScopeId → Run Object) (stmts : Block) (scope : ScopeId) :
    block enter stmts scope =
      (·.getD .sharedNull) <$> sequence enter stmts.statements none scope := by
  obtain ⟨token, stmts⟩ := stmts
  rw [map_eq_pure_bind]
  refine bind_congr fun value => ?_
  cases value <;> rfl

/-- A sequence begins each of its statements with the events of those before it in the journal,
which makes no difference. -/
theorem evaluation?_sequence (h : Lawful S (Object.Sound S) (body depth) scope)
    (stmts : List Stmt) (last : Option Object) (hstore : store.Within S (Object.Sound S)) :
    evaluation? (settle (sequence (body depth) stmts last scope) ⟨store, []⟩) =
      Node.evaluateEach? depth scope stmts last store := by
  induction stmts generalizing last store with
  | nil => rfl
  | cons stmt stmts ih =>
      have hsound := preserves_statement h stmt ⟨store, []⟩ ⟨hstore, by simp⟩
      have hrun : (Node.statement stmt).run depth scope =
          settle (statement (body depth) stmt scope) := rfl
      rw [Node.evaluateEach?, Node.evaluate?_eq, hrun, sequence_cons]
      cases hstmt : statement (body depth) stmt scope ⟨store, []⟩ with
      | error stop s =>
          rw [settle_eq, settle_eq, bind_eq_error hstmt, hstmt]
          cases stop <;> rfl
      | ok value s =>
          rw [hstmt] at hsound
          cases hsound with
          | ok hvalue =>
          have hends := any_ends_eq fun object hobject => (hvalue.2 object hobject).not_error
          rw [settle_bind hstmt, settle_eq (statement _ _ _), hstmt]
          simp only [evaluation?_ok, Option.bind_some, hends]
          cases hgo : goesOn value with
          | false => rfl
          | true =>
              have hblind : Blind (settle (sequence (body depth) stmts value scope)) :=
                (uniform_sequence blind (uniform_body blind depth) stmts value).settle
              simp only [if_true, Bool.not_true, Bool.false_eq_true, if_false]
              rw [hblind.eq_onTop s, evaluation?_onTop, ih value hvalue.1.store]

end Run

/-! ## The entry points -/

/-- A program is its statements one at a time, with what is returned unwrapped, and a block is its
statements one at a time, with null where there is no value. -/
theorem evaluation_is_statements_in_turn (h : ¬ store.ShowsError scope) (depth : Nat) :
    (∀ whole : Program, (Node.program whole).evaluate? depth scope store =
      (Node.evaluateEach? depth scope whole.statements none store).map fun result =>
        { result with value := result.value.map Object.unwrapped }) ∧
    ∀ stmts : Block, (Node.block stmts).evaluate? depth scope store =
      (Node.evaluateEach? depth scope stmts.statements none store).map fun result =>
        { result with value := some (result.value.getD .sharedNull) } := by
  have hlawful := Store.lawful_sound h depth
  constructor
  · intro whole
    rw [Node.evaluate?_eq, ← Run.evaluation?_sequence hlawful _ _ store.within_sound,
      ← Run.evaluation?_settle_map (f := Option.map Object.unwrapped) (fun _ _ => rfl),
      map_eq_pure_bind]
    rfl
  · intro stmts
    have hrun : (Node.block stmts).run depth scope =
        Run.settle (some <$> Run.block (Run.body depth) stmts scope) := rfl
    rw [Node.evaluate?_eq, ← Run.evaluation?_sequence hlawful _ _ store.within_sound,
      ← Run.evaluation?_settle_map (f := fun value => some (value.getD .sharedNull))
        (fun _ _ => rfl), hrun, Run.block_eq_map, Functor.map_map]

/-- A program that returns from a branch, in front of a name that is not bound. -/
def returningEarly : Program :=
  (parse "let a = 1; if (a < 2) \x7b return a; \x7d b;").program

/-- The third statement is not evaluated, and the answer of the second is unwrapped. -/
theorem returning_early_in_turn :
    ¬ Session.new.store.ShowsError 0 ∧
      ∃ result, Node.evaluateEach? 0 0 returningEarly.statements none Session.new.store =
          some result ∧
        result.value.map Object.type = some .returned ∧
        (Node.program returningEarly).evaluate? 0 0 Session.new.store =
          some { result with value := result.value.map Object.unwrapped } := by
  have hnone := Session.not_showsError_new 0
  have hsome : (Node.evaluateEach? 0 0 returningEarly.statements none Session.new.store).any
      (·.value.map Object.type == some .returned) = true := by decide +kernel
  obtain ⟨result, hresult, htype⟩ := (Option.any_eq_true ..).mp hsome
  refine ⟨hnone, result, hresult, eq_of_beq htype, ?_⟩
  rw [(evaluation_is_statements_in_turn hnone 0).1, hresult, Option.map_some]

end ClosureLang
