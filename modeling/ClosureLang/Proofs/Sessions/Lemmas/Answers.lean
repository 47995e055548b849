import ClosureLang.Proofs.Sessions.Lemmas.Joining
import ClosureLang.Proofs.Sessions.Lemmas.Sequencing

/-!
# What turns answer

With the places of the tokens left out, the turns of a session run the statements of its sources one
after another.
-/

namespace ClosureLang

variable {depth depth' : Nat} {session after final : Session} {source : String}
  {sources : List String} {turn : Turn} {turns : List Turn} {outcome : Outcome}
  {stmts stmts' : List Stmt} {last value answer : Option Object}

namespace Session

/-- Behind others that have left `last`, the statements come to a value and leave the session like
that. -/
structure Answers (depth : Nat) (session : Session) (stmts : List Stmt) (last value : Option Object)
    (after : Session) : Prop where
  scope : after.scope = session.scope
  rest : ∀ journal, ∃ journal', Run.rest depth stmts last session.scope ⟨session.store, journal⟩ =
    .ok value ⟨after.store, journal'⟩

namespace Answers

theorem nil (h : Run.goesOn last = true) : session.Answers depth [] last last session :=
  ⟨rfl, fun journal => ⟨journal, by rw [Run.rest_nil, Run.unwrapped_of_goesOn h]⟩⟩

theorem append (h : session.Answers depth stmts none value after)
    (hall : ∀ journal, Run.completes (Run.body depth) session.scope stmts
      ⟨session.store, journal⟩ = true)
    (hlast : Run.goesOn last = true)
    (hrest : after.Answers depth stmts' (if stmts.isEmpty then last else value) answer final) :
    session.Answers depth (stmts ++ stmts') last answer final where
  scope := hrest.scope.trans h.scope
  rest journal := by
    obtain ⟨journal', hvalue⟩ := h.rest journal
    rw [Run.rest_append_of_completes hlast (hall journal) hvalue, ← h.scope]
    exact hrest.rest journal'

theorem append_of_not_completes (h : session.Answers depth stmts none value after)
    (hnot : ∀ journal, Run.completes (Run.body depth) session.scope stmts
      ⟨session.store, journal⟩ = false)
    (hlast : Run.goesOn last = true) :
    session.Answers depth (stmts ++ stmts') last value after where
  scope := h.scope
  rest journal := by
    rw [Run.rest_append_of_not_completes hlast (hnot journal)]
    exact h.rest journal

theorem goesOn (h : session.Answers depth stmts none value after)
    (hall : ∀ journal, Run.completes (Run.body depth) session.scope stmts
      ⟨session.store, journal⟩ = true) : Run.goesOn value = true := by
  obtain ⟨journal', hvalue⟩ := h.rest []
  exact (Run.sequence_of_completes (hall []) hvalue).2

theorem unique {value' : Option Object} {after' : Session}
    (h : session.Answers depth stmts last value after)
    (h' : session.Answers depth stmts last value' after') : value = value' ∧ after = after' := by
  obtain ⟨journal, hvalue⟩ := h.rest []
  obtain ⟨journal', hvalue'⟩ := h'.rest []
  rw [hvalue] at hvalue'
  injection hvalue' with heq hstate
  refine ⟨heq, ?_⟩
  obtain ⟨store, scope⟩ := after
  obtain ⟨store', scope'⟩ := after'
  injection hstate with hstore
  obtain rfl : scope = session.scope := h.scope
  obtain rfl : scope' = session.scope := h'.scope
  exact congrArg (Session.mk · session.scope) hstore

end Answers

/-! ## One turn -/

/-- A source that runs has its statements answer. -/
theorem answers_of_run? (herrors : (parse source).errors = [])
    (h : session.run? depth source = some (outcome, after)) :
    ∃ value, outcome.unplaced = .value value ∧ session.unplaced.Answers depth
      (parse source).program.unplaced.statements none value after.unplaced := by
  simp only [run?, herrors, List.isEmpty_nil, if_true, Option.map_eq_some_iff] at h
  obtain ⟨result, hresult, hsome⟩ := h
  cases hsome
  rw [Node.evaluate?] at hresult
  split at hresult
  · next answer s hrun =>
    cases hresult
    refine ⟨_, rfl, rfl, fun journal => ?_⟩
    have henter : Run.MovesBodies nowhere (Run.body depth) := Run.moves_body depth
    have hmoves := (Run.moves_program henter (parse source).program session.scope).settle
      ⟨session.store, []⟩ ⟨session.store.unplaced, journal⟩ rfl
    rw [show Run.settle _ _ = _ from hrun] at hmoves
    obtain ⟨⟨store, journal'⟩, hrest, hstore⟩ := hmoves.exists_ok
    obtain rfl : store = s.store.unplaced := hstore
    exact ⟨journal', hrest⟩
  · cases hresult

theorem run?_mono (hdepth : depth ≤ depth')
    (h : session.run? depth source = some (outcome, after)) :
    session.run? depth' source = some (outcome, after) := by
  simp only [run?] at h ⊢
  split at h
  · obtain ⟨result, hresult, hsome⟩ := Option.map_eq_some_iff.mp h
    rw [if_pos ‹_›, Node.evaluate?_mono hdepth hresult, ← hsome]
    rfl
  · rwa [if_neg ‹_›]

end Session

namespace Turn

/-- The turn is a run of its source. -/
def Runs (depth : Nat) (turn : Turn) : Prop :=
  turn.before.run? depth turn.source = some (turn.outcome, turn.after)

theorem Runs.answers (h : turn.Runs depth) (hclosed : Closed turn.source) :
    ∃ value, turn.outcome.unplaced = .value value ∧ turn.before.unplaced.Answers depth
      (parse turn.source).program.unplaced.statements none value turn.after.unplaced :=
  Session.answers_of_run? hclosed.errors h

theorem completes_unplaced (turn : Turn) (depth : Nat) (journal : List Event) :
    Run.completes (Run.body depth) turn.before.unplaced.scope
        (parse turn.source).program.unplaced.statements ⟨turn.before.unplaced.store, journal⟩ =
      turn.completes depth :=
  Run.completes_placed (Run.moves_body depth) turn.statements rfl

theorem isEmpty_unplaced (turn : Turn) :
    (parse turn.source).program.unplaced.statements.isEmpty = turn.statements.isEmpty := by
  rw [statements]
  cases h : (parse turn.source).program.statements with
  | nil => simp [Program.unplaced, Program.placed, placedStatements, h]
  | cons stmt stmts => simp [Program.unplaced, Program.placed, placedStatements, h]

/-- A turn that goes through hands its value over, if it has one to hand over. -/
theorem Runs.append (h : turn.Runs depth) (hclosed : Closed turn.source)
    (hall : turn.completes depth = true) (hlast : Run.goesOn last = true) :
    ∃ value, turn.outcome.unplaced = .value value ∧
      Run.goesOn (if turn.statements.isEmpty then last else value) = true ∧
      ∀ stmts answer final, turn.after.unplaced.Answers depth stmts
          (if turn.statements.isEmpty then last else value) answer final →
        turn.before.unplaced.Answers depth
          ((parse turn.source).program.unplaced.statements ++ stmts) last answer final := by
  obtain ⟨value, hvalue, hanswers⟩ := h.answers hclosed
  have hcompletes := fun journal => (turn.completes_unplaced depth journal).trans hall
  rw [← turn.isEmpty_unplaced]
  refine ⟨value, hvalue, ?_, fun stmts answer final => hanswers.append hcompletes hlast⟩
  split
  · exact hlast
  · exact hanswers.goesOn hcompletes

theorem Runs.completes_mono (h : turn.Runs depth) (hclosed : Closed turn.source)
    (hdepth : depth ≤ depth') : turn.completes depth' = turn.completes depth := by
  obtain ⟨value, _, hanswers⟩ := h.answers hclosed
  obtain ⟨journal, hrest⟩ := hanswers.rest []
  rw [← turn.completes_unplaced depth' [], ← turn.completes_unplaced depth []]
  exact Run.completes_mono hdepth hrest

end Turn

/-! ## All turns -/

namespace Session

theorem exists_of_turns?_cons (h : session.turns? depth sources = some (turn :: turns)) :
    ∃ rest, sources = turn.source :: rest ∧ turn.before = session ∧ turn.Runs depth ∧
      turn.after.turns? depth rest = some turns := by
  cases sources with
  | nil => cases h
  | cons source rest =>
      obtain ⟨⟨outcome, after⟩, hrun, hturns⟩ := Option.bind_eq_some_iff.mp h
      obtain ⟨others, hothers, heq⟩ := Option.map_eq_some_iff.mp hturns
      cases heq
      exact ⟨rest, rfl, rfl, hrun, hothers⟩

theorem eq_nil_of_turns?_nil (h : session.turns? depth sources = some []) : sources = [] := by
  cases sources with
  | nil => rfl
  | cons source rest =>
      obtain ⟨_, _, hturns⟩ := Option.bind_eq_some_iff.mp h
      obtain ⟨_, _, heq⟩ := Option.map_eq_some_iff.mp hturns
      cases heq

theorem turns?_mono (hdepth : depth ≤ depth') (h : session.turns? depth sources = some turns) :
    session.turns? depth' sources = some turns := by
  induction sources generalizing session turns with
  | nil => exact h
  | cons source sources ih =>
      obtain ⟨⟨outcome, after⟩, hrun, hturns⟩ := Option.bind_eq_some_iff.mp h
      obtain ⟨others, hothers, heq⟩ := Option.map_eq_some_iff.mp hturns
      rw [turns?, run?_mono hdepth hrun, Option.bind_some]
      exact Option.map_eq_some_iff.mpr ⟨others, ih hothers, heq⟩

theorem runs_of_mem (h : session.turns? depth sources = some turns)
    (hclosed : ∀ source ∈ sources, Closed source) :
    ∀ turn ∈ turns, turn.Runs depth ∧ Closed turn.source := by
  induction turns generalizing session sources with
  | nil => simp
  | cons turn turns ih =>
      obtain ⟨rest, rfl, _, hrun, hrest⟩ := exists_of_turns?_cons h
      obtain ⟨hsource, hsources⟩ := List.forall_mem_cons.mp hclosed
      exact List.forall_mem_cons.mpr ⟨⟨hrun, hsource⟩, ih hrest hsources⟩

/-- What the last source of turns says that has a statement, and `last` if none has. -/
def lastAnswer (last : Option Object) (turns : List Turn) : Outcome :=
  ((turns.filter (! ·.statements.isEmpty)).getLast?.map (·.outcome.unplaced)).getD (.value last)

theorem unplaced_lastOutcome (turns : List Turn) :
    (Turn.lastOutcome turns).unplaced = lastAnswer none turns := by
  simp only [Turn.lastOutcome, lastAnswer]
  cases (turns.filter (! ·.statements.isEmpty)).getLast? <;> rfl

theorem lastAnswer_cons (h : turn.outcome.unplaced = .value value) :
    lastAnswer last (turn :: turns) =
      lastAnswer (if turn.statements.isEmpty then last else value) turns := by
  simp only [lastAnswer, List.filter_cons]
  cases turn.statements.isEmpty with
  | true => rfl
  | false =>
      simp only [Bool.not_false, if_true, Bool.false_eq_true, if_false, List.getLast?_cons]
      cases (turns.filter (! ·.statements.isEmpty)).getLast? <;> simp [h]

theorem afterTurns_cons (session : Session) (turn : Turn) (turns : List Turn) :
    session.afterTurns (turn :: turns) = turn.after.afterTurns turns := by
  simp only [afterTurns, List.getLast?_cons]
  cases turns.getLast? <;> rfl

/-- Turns that all go through answer with the value of the last statement, and leave the session as
it is after the last of them. -/
theorem answers_of_completes (h : session.turns? depth sources = some turns)
    (hclosed : ∀ source ∈ sources, Closed source) (hlast : Run.goesOn last = true)
    (hall : ∀ turn ∈ turns, turn.completes depth = true) :
    ∃ value, lastAnswer last turns = .value value ∧ session.unplaced.Answers depth
      (sources.flatMap fun source => (parse source).program.unplaced.statements) last value
      (session.afterTurns turns).unplaced := by
  induction turns generalizing session sources last with
  | nil =>
      obtain rfl := eq_nil_of_turns?_nil h
      exact ⟨last, rfl, .nil hlast⟩
  | cons turn turns ih =>
      obtain ⟨rest, rfl, rfl, hrun, hrest⟩ := exists_of_turns?_cons h
      obtain ⟨hsource, hsources⟩ := List.forall_mem_cons.mp hclosed
      obtain ⟨hturn, hturns⟩ := List.forall_mem_cons.mp hall
      obtain ⟨value, hvalue, hnext, happend⟩ := hrun.append hsource hturn hlast
      obtain ⟨answer, hanswer, hanswers⟩ := ih hrest hsources hnext hturns
      rw [lastAnswer_cons hvalue, afterTurns_cons, List.flatMap_cons]
      exact ⟨answer, hanswer, happend _ _ _ hanswers⟩

/-- A turn that does not go through, behind others that do, gives the answer and leaves the
session. -/
theorem answers_of_not_completes {done left : List Turn}
    (h : session.turns? depth sources = some (done ++ turn :: left))
    (hclosed : ∀ source ∈ sources, Closed source) (hlast : Run.goesOn last = true)
    (hall : ∀ turn ∈ done, turn.completes depth = true) (hnot : turn.completes depth = false) :
    ∃ value, turn.outcome.unplaced = .value value ∧ session.unplaced.Answers depth
      (sources.flatMap fun source => (parse source).program.unplaced.statements) last value
      turn.after.unplaced := by
  induction done generalizing session sources last with
  | nil =>
      obtain ⟨rest, rfl, rfl, hrun, _⟩ := exists_of_turns?_cons h
      obtain ⟨value, hvalue, hanswers⟩ := hrun.answers (hclosed _ List.mem_cons_self)
      have hcompletes := fun journal => (turn.completes_unplaced depth journal).trans hnot
      exact ⟨value, hvalue, hanswers.append_of_not_completes hcompletes hlast⟩
  | cons first done ih =>
      obtain ⟨rest, rfl, rfl, hrun, hrest⟩ := exists_of_turns?_cons h
      obtain ⟨hsource, hsources⟩ := List.forall_mem_cons.mp hclosed
      obtain ⟨hfirst, hdone⟩ := List.forall_mem_cons.mp hall
      obtain ⟨_, _, hnext, happend⟩ := hrun.append hsource hfirst hlast
      obtain ⟨value, hvalue, hanswers⟩ := ih hrest hsources hnext hdone
      rw [List.flatMap_cons]
      exact ⟨value, hvalue, happend _ _ _ hanswers⟩

end Session

end ClosureLang
