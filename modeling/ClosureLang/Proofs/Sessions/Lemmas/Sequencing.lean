import ClosureLang.Proofs.Placing.Lemmas.Running
import ClosureLang.Proofs.Running.Lemmas.Depth
import ClosureLang.Proofs.Running.Lemmas.Sequencing
import ClosureLang.Proofs.Sessions.Turns

/-!
# Statements in two parts

The second part runs where all statements of the first go through, on the value that they leave.
-/

namespace ClosureLang.Run

variable {enter enter' : Block → ScopeId → Run Object} {scope : ScopeId} {s : State}

/-- A statement goes through if the run after it comes to something that goes on. -/
theorem completes_iff (stmts : List Stmt) (last : Option Object) (hlast : goesOn last = true) :
    completes enter scope stmts s = true ↔
      ∃ value s', sequence enter stmts last scope s = .ok value s' ∧ goesOn value = true := by
  induction stmts generalizing last s with
  | nil =>
      have hnil : sequence enter [] last scope s = .ok last s := rfl
      simp [completes, hnil, hlast]
  | cons stmt stmts ih =>
      rw [sequence_cons, completes]
      cases hstmt : statement enter stmt scope s with
      | error stop s' => simp [bind_eq_error hstmt]
      | ok value s' =>
          rw [bind_eq hstmt]
          cases hvalue : goesOn value with
          | true => simpa [hvalue] using ih value hvalue (s := s')
          | false => simp [Pure.pure, EStateM.pure, hvalue]

theorem unwrapped_of_goesOn {value : Option Object} (h : goesOn value = true) :
    value.map Object.unwrapped = value := by
  match value with
  | some (.returned _ _) => cases h
  | none | some (.integer _ _) | some (.boolean _ _) | some (.null _) | some (.function _ _)
  | some (.error _ _) => rfl

theorem goesOn_placed {place : Token → Span} (value : Option Object) :
    goesOn (value.map (Object.placed place)) = goesOn value := by
  match value with
  | none | some (.returned _ _) | some (.integer _ _) | some (.boolean _ _) | some (.null _)
  | some (.function _ _) | some (.error _ _) => rfl

theorem completes_placed {place : Token → Span} (henter : MovesBodies place enter)
    (stmts : List Stmt) {t : State} (h : t.store = s.store.placed place) :
    completes enter scope (placedStatements place stmts) t = completes enter scope stmts s := by
  have hmoves : Moves place _ (sequence enter stmts none scope)
      (sequence enter (placedStatements place stmts) none scope) :=
    moves_sequence henter stmts none
  have hseq := hmoves s t h
  rw [Bool.eq_iff_iff, completes_iff _ none rfl, completes_iff _ none rfl]
  generalize sequence enter stmts none scope s = r at hseq ⊢
  generalize sequence enter (placedStatements place stmts) none scope t = r' at hseq ⊢
  cases hseq with
  | ok _ => simp [goesOn_placed]
  | error _ => simp

/-! ## The rest of a program -/

/-- The run of a program's statements behind others, which have left `last`. -/
def rest (depth : Nat) (stmts : List Stmt) (last : Option Object) (scope : ScopeId) :
    Run (Option Object) :=
  settle do
    let value ← sequence (body depth) stmts last scope
    return value.map Object.unwrapped

variable {depth depth' : Nat} {stmts : List Stmt} {last value : Option Object} {s' : State}

theorem rest_nil : rest depth [] last scope s = .ok (last.map Object.unwrapped) s := by
  rw [rest, settle_eq]
  rfl

/-- Only a program without statements has a value from those in front of it. -/
theorem sequence_of_ne_nil (hne : stmts ≠ []) (last last' : Option Object) :
    sequence enter stmts last scope = sequence enter stmts last' scope := by
  obtain ⟨stmt, stmts, rfl⟩ := List.exists_cons_of_ne_nil hne
  rfl

theorem rest_append_of_ok (hlast : goesOn last = true)
    (hseq : sequence (body depth) stmts last scope s = .ok value s') (hvalue : goesOn value = true)
    (stmts' : List Stmt) :
    rest depth (stmts ++ stmts') last scope s = rest depth stmts' value scope s' := by
  rw [rest, rest, sequence_append stmts stmts' hlast, bind_assoc, settle_eq, bind_eq hseq,
    if_pos hvalue, settle_eq]

theorem sequence_of_completes (h : completes (body depth) scope stmts s = true)
    (hrest : rest depth stmts none scope s = .ok value s') :
    sequence (body depth) stmts none scope s = .ok value s' ∧ goesOn value = true := by
  obtain ⟨found, t, hseq, hfound⟩ := (completes_iff stmts none rfl).mp h
  rw [rest, settle_eq, bind_eq hseq, unwrapped_of_goesOn hfound] at hrest
  cases hrest
  exact ⟨hseq, hfound⟩

/-- Statements that go through hand over to those behind them. -/
theorem rest_append_of_completes (hlast : goesOn last = true)
    (h : completes (body depth) scope stmts s = true)
    (hrest : rest depth stmts none scope s = .ok value s') (stmts' : List Stmt) :
    rest depth (stmts ++ stmts') last scope s =
      rest depth stmts' (if stmts.isEmpty then last else value) scope s' := by
  obtain ⟨hseq, hvalue⟩ := sequence_of_completes h hrest
  cases stmts with
  | nil =>
      cases hseq
      rfl
  | cons stmt stmts => exact rest_append_of_ok hlast hseq hvalue stmts'

/-- Statements that do not all go through are the end of the program. -/
theorem rest_append_of_not_completes (hlast : goesOn last = true)
    (h : completes (body depth) scope stmts s = false) (stmts' : List Stmt) :
    rest depth (stmts ++ stmts') last scope s = rest depth stmts none scope s := by
  have hne : stmts ≠ [] := by
    rintro rfl
    cases h
  rw [rest, rest, sequence_append stmts stmts' hlast, sequence_of_ne_nil hne last none, bind_assoc,
    settle_eq, settle_eq]
  cases hseq : sequence (body depth) stmts none scope s with
  | error stop s' => rw [bind_eq_error hseq, bind_eq_error hseq]
  | ok value s' =>
      cases hvalue : goesOn value with
      | true =>
          rw [(completes_iff stmts none rfl).mpr ⟨value, s', hseq, hvalue⟩] at h
          cases h
      | false =>
          rw [bind_eq hseq, bind_eq hseq, hvalue]
          rfl

/-- With more depth the same statements go through, if they ran with less. -/
theorem completes_mono (hdepth : depth ≤ depth')
    (hrest : rest depth stmts none scope s = .ok value s') :
    completes (body depth') scope stmts s = completes (body depth) scope stmts s := by
  have hdeepens : Deepens (sequence (body depth) stmts none scope) _ :=
    deepens_sequence (deepens_body hdepth) stmts none
  rcases hdeepens s with ⟨t, hstop⟩ | hsame
  · rw [rest, settle_eq, bind_eq_error hstop] at hrest
    cases hrest
  · rw [Bool.eq_iff_iff, completes_iff stmts none rfl, completes_iff stmts none rfl, hsame]

end ClosureLang.Run
