import ClosureLang.Proofs.EarlyExit.Lemmas.Complete
import ClosureLang.Proofs.Running.Theorems

/-!
# Returned objects are early exit
-/

namespace ClosureLang.EarlyExit

variable {S : ScopeId → Prop} {s : Run.State} {scope : ScopeId} {whole : Program}

theorem Outcome.ofProgram_ofValue (value : Option Object) :
    (ofValue value).ofProgram = .ok (value.map Object.unwrapped) := by
  cases value with
  | none => rfl
  | some value => cases value <;> rfl

theorem follows_program (hwhole : whole.Structured) (hscope : S scope) (hs : Run.Sane S s)
    (depth : Nat) :
    Run.Outcome
      (fun value s' => Run.Sane S s' ∧ Answers whole scope s.store (.ok value) s'.store)
      (fun stop s' => Run.Sane S s' ∧
        ∀ error, stop = .raised error → Answers whole scope s.store (.error error) s'.store)
      (Run.program (Run.body depth) whole scope s) := by
  rw [Run.program]
  apply Run.Outcome.bind ((follows_sequence (follows_body depth) hscope whole.statements hwhole none
    (by simp) s hs).mono (fun _ _ hq => hq)
      fun _ _ he => ⟨he.1, fun e hstop => ⟨_, he.2 e hstop, rfl⟩⟩)
  rintro value s' ⟨hs', _, _, hd⟩
  exact .pure ⟨hs', _, hd, Outcome.ofProgram_ofValue value⟩

/-- The result of a run that gives an answer. -/
def resultOf (answer : Except EvalError (Option Object)) (s : Run.State) :
    EStateM.Result Run.Stop Run.State (Option Object) :=
  match answer with
  | .ok value => .ok value s
  | .error error => .error (.raised error) s

theorem comes_program {answer : Except EvalError (Option Object)} {store' : Store}
    (hwhole : whole.Structured) (hscope : S scope) (hs : Run.Sane S s)
    (h : Answers whole scope s.store answer store') :
    ∃ s', s'.store = store' ∧
      Eventually (fun n => Run.program (Run.body n) whole scope) s (resultOf answer s') := by
  obtain ⟨outcome, hseq, rfl⟩ := h
  obtain ⟨r, hr, hstands⟩ := comes_sequence hs hscope hwhole (by simp) rfl hseq
  cases hstands with
  | @ok value s' _ hv =>
      subst hv
      rw [Outcome.ofProgram_ofValue]
      exact ⟨s', rfl, hr.bind (.always rfl)⟩
  | failed => exact ⟨_, rfl, hr.bind_error⟩

/-- What an answer is to the caller: an error is an object, with an identity of its own. -/
def settled (answer : Except EvalError (Option Object)) (store : Store) : Option Object × Store :=
  match answer with
  | .ok value => (value, store)
  | .error error => (some (.error store.newId.1 error.message), store.newId.2)

theorem settle_resultOf {run : Run (Option Object)} {s s' : Run.State}
    {answer : Except EvalError (Option Object)} (h : run s = resultOf answer s') :
    Run.settle run s =
      .ok (settled answer s'.store).1 ⟨(settled answer s'.store).2, s'.journal⟩ := by
  rw [Run.settle_eq, h]
  cases answer <;> rfl

theorem exists_resultOf {run : Run (Option Object)} {s s' : Run.State} {value : Option Object}
    (h : Run.settle run s = .ok value s') : ∃ answer s₁, run s = resultOf answer s₁ := by
  rw [Run.settle_eq] at h
  cases hr : run s with
  | ok value s₁ => exact ⟨.ok value, s₁, rfl⟩
  | error stop s₁ =>
      cases stop with
      | raised error => exact ⟨.error error, s₁, rfl⟩
      | tooDeep => rw [hr] at h; cases h

theorem journal_settle (run : Run (Option Object)) (s : Run.State) :
    (Run.ending (Run.settle run s)).journal = (Run.ending (run s)).journal := by
  rw [Run.settle_eq]
  cases run s with
  | ok value s₁ => rfl
  | error stop s₁ => cases stop <;> rfl

theorem answers_of_run {answer : Except EvalError (Option Object)} {s₁ : Run.State} {depth : Nat}
    (hwhole : whole.Structured) (hscope : S scope) (hs : Run.Sane S s)
    (h : Run.program (Run.body depth) whole scope s = resultOf answer s₁) :
    Answers whole scope s.store answer s₁.store := by
  have hq := follows_program hwhole hscope hs depth
  rw [h] at hq
  cases answer with
  | ok value => cases hq with | ok hq => exact hq.2
  | error error => cases hq with | error he => exact he.2 error rfl

/-- In a structured program returned objects do what early exit does: the evaluation ends with a
result exactly if the semantics has an answer, with the same value or message and the same store.
No returned object is used on the way. -/
theorem returned_objects_are_early_exit {program : Program} {scope : ScopeId} {store : Store}
    (hprogram : program.Structured) (hstore : store.Structured scope) :
    (∀ value store',
      (∃ depth journal, (Node.program program).run depth scope ⟨store, []⟩ =
          .ok value ⟨store', journal⟩) ↔
        ∃ answer store₁, Answers program scope store answer store₁ ∧
          settled answer store₁ = (value, store')) ∧
      ∀ depth how value,
        .use how value ∈
          (Run.ending ((Node.program program).run depth scope ⟨store, []⟩)).journal →
        ¬ value.IsReturned := by
  have hs : Run.Sane (fun i => store.Reaches scope i ∨ store.scopes.size ≤ i) ⟨store, []⟩ :=
    ⟨hstore.clean, by simp⟩
  have hscope : store.Reaches scope scope ∨ store.scopes.size ≤ scope := .inl .start
  constructor
  · intro value store'
    constructor
    · rintro ⟨depth, journal, hrun⟩
      obtain ⟨answer, s₁, hr⟩ := exists_resultOf hrun
      have heq := EStateM.Result.ok.inj ((settle_resultOf hr).symm.trans hrun)
      have hstore' := congrArg Run.State.store heq.2
      exact ⟨answer, s₁.store, answers_of_run hprogram hscope hs hr, Prod.ext heq.1 hstore'⟩
    · rintro ⟨answer, store₁, ha, heq⟩
      obtain ⟨s', rfl, n, hr⟩ := comes_program hprogram hscope hs ha
      have hrun := settle_resultOf (hr n (Nat.le_refl n))
      rw [heq] at hrun
      exact ⟨n, s'.journal, hrun⟩
  · intro depth how value
    have hq := follows_program hprogram hscope hs depth
    rw [Node.run, journal_settle]
    generalize Run.program (Run.body depth) program scope ⟨store, []⟩ = r at hq ⊢
    cases hq with
    | ok hq => exact hq.1.journal how value
    | error he => exact he.1.journal how value

/-! ## A function that is left from inside an `if` -/

/-- A token for trees that were not read from a text. -/
def noToken : Token :=
  ⟨.illegal, "", ⟨0, 0⟩⟩

/-- The body of `fn() { if (true) { return 1; } 2 }`. -/
def leavingBody : Block :=
  ⟨noToken, [.exprStmt noToken (.conditional noToken (.boolean noToken true)
    ⟨noToken, [.returnStmt noToken (.integer noToken 1)]⟩ none),
    .exprStmt noToken (.integer noToken 2)]⟩

/-- One scope, with a function of this body bound in it. -/
def leavingStore : Store :=
  ⟨#[⟨[("f", .function (.fresh 0) ⟨[], leavingBody, 0⟩)], none⟩], 1⟩

/-- The function called where its literal stands. -/
def leavingProgram : Program :=
  ⟨[.exprStmt noToken (.call noToken (.function noToken [] leavingBody) [])]⟩

theorem structured_leavingBody : leavingBody.Structured := by
  simp [leavingBody, Block.Structured, AllStructured, Stmt.Structured, Expr.Structured,
    AlternativeStructured]

theorem leavingStore_getLocal? {scope : ScopeId} {name : String} {value : Object}
    (h : leavingStore.getLocal? scope name = some value) :
    value = .function (.fresh 0) ⟨[], leavingBody, 0⟩ := by
  cases scope with
  | zero =>
      have h : Scope.find? name [("f", .function (.fresh 0) ⟨[], leavingBody, 0⟩)] = some value := h
      rw [Scope.find?] at h
      split at h
      · exact (Option.some.inj h).symm
      · cases h
  | succ scope => simp [leavingStore, Store.getLocal?] at h

/-- The program answers 1 and not 2. -/
theorem leaving_answers_one :
    leavingProgram.Structured ∧ leavingStore.Structured 0 ∧
      ∃ answer store₁, Answers leavingProgram 0 leavingStore answer store₁ ∧
        (settled answer store₁).1 = some (.integer (.fresh 2) 1) := by
  have hprogram : leavingProgram.Structured := by
    simp [leavingProgram, Program.Structured, AllStructured, Stmt.Structured, Expr.Structured,
      AllExprsStructured, structured_leavingBody]
  have hstore : leavingStore.Structured 0 := by
    constructor
    · intro scope name value _ h
      rw [leavingStore_getLocal? h]
      simp [Object.IsReturned, Object.type]
    · intro scope name id closure _ h
      cases leavingStore_getLocal? h
      exact structured_leavingBody
  refine ⟨hprogram, hstore, ?_⟩
  obtain ⟨answer, store₁, ha, heq⟩ :=
    ((returned_objects_are_early_exit hprogram hstore).1 _ _).mp ⟨2, _, rfl⟩
  exact ⟨answer, store₁, ha, congrArg Prod.fst heq⟩

end ClosureLang.EarlyExit
