import Mathlib.Logic.ExistsUnique
import Mathlib.Tactic.Choose
import ClosureLang.Proofs.Stepping.Lemmas.Flow

/-!
# The changes of a step

Every step makes changes of its own and those of its parts, and there is only one list of them.
-/

namespace ClosureLang.Step

variable {step part : Step} {k : Nat}

/-! ## There is one list -/

theorem exists_changes (step : Step) : ∃ changes, step.Changes changes := by
  have hparts (k : Nat) : ∃ inner, (∀ part, step.Begins k part → Changes part inner) ∧
      ((∀ part, ¬ step.Begins k part) → inner = []) := by
    by_cases h : ∃ part, step.Begins k part
    · obtain ⟨part, hbegins⟩ := h
      have hlex := hbegins.lex
      obtain ⟨inner, hinner⟩ := exists_changes part
      refine ⟨inner, fun part' hbegins' => ?_, fun hnone => absurd hbegins (hnone part)⟩
      rwa [hbegins'.unique hbegins]
    · exact ⟨[], fun part hbegins => absurd ⟨part, hbegins⟩ h, fun _ => rfl⟩
  choose inner hinner hnone using hparts
  exact ⟨_, .intro inner hinner hnone⟩
termination_by (step.depth, step.part.size)
decreasing_by exact Prod.lex_def.mpr hlex

theorem Changes.unique {changes changes' : List Change} (h : step.Changes changes)
    (h' : step.Changes changes') : changes = changes' := by
  induction h generalizing changes' with
  | @intro step inner _ hnone ih =>
      cases h' with
      | intro inner' hinner' hnone' =>
          have hsame : inner = inner' := by
            funext k
            by_cases h : ∃ part, step.Begins k part
            · obtain ⟨part, hbegins⟩ := h
              exact ih k part hbegins (hinner' k part hbegins)
            · have hnot := not_exists.mp h
              rw [hnone k hnot, hnone' k hnot]
          rw [hsame]

theorem existsUnique_changes (step : Step) : ∃! changes, step.Changes changes := by
  obtain ⟨changes, h⟩ := step.exists_changes
  exact ⟨changes, h, fun _ h' => h'.unique h⟩

/-! ## The last part -/

theorem Begins.lt_three (h : Begins k step part) : k < 3 := by
  cases h <;> decide

theorem Begins.exists_of_le {j : Nat} (h : Begins k step part) (hj : j ≤ k) :
    ∃ before, Begins j step before := by
  induction k generalizing part with
  | zero => exact ⟨part, Nat.le_zero.mp hj ▸ h⟩
  | succ k ih =>
      rcases Nat.le_succ_iff.mp hj with hj | rfl
      · obtain ⟨before, hbefore, -⟩ := h.succ
        exact ih hbefore hj
      · exact ⟨part, h⟩

/-- A step that begins others begins one that is the last. -/
theorem Begins.exists_last {k : Nat} {part : Step} (h : Begins k step part) :
    ∃ k' part', Begins k' step part' ∧ ∀ j part'', Begins j step part'' → j ≤ k' := by
  by_cases hmore : ∃ part', Begins (k + 1) step part'
  · obtain ⟨part', h'⟩ := hmore
    have hlt := h.lt_three
    exact h'.exists_last
  · refine ⟨k, part, h, fun j part'' h'' => Nat.le_of_not_lt fun hlt => hmore ?_⟩
    exact h''.exists_of_le hlt
termination_by 3 - k

theorem flatMap_range_of_last {inner : Nat → List Change} (h : Begins k step part)
    (hnone : ∀ j, k < j → inner j = []) :
    (List.range 3).flatMap inner = (List.range (k + 1)).flatMap inner := by
  match k, h.lt_three with
  | 0, _ => simp [List.range_succ, hnone 1, hnone 2]
  | 1, _ => simp [List.range_succ, hnone 2]
  | 2, _ => rfl

/-! ## Nothing goes away between the parts -/

theorem Begins.grows (h : Begins k step part) : step.state.store.Grows part.state.store := by
  induction k generalizing part with
  | zero =>
      rw [h.first]
      exact step.state.store.grows_after step.opening
  | succ k ih =>
      obtain ⟨before, hbefore, hstore⟩ := h.succ
      rw [hstore]
      exact (ih hbefore).trans before.grows

/-- From the end of a part to the beginning of a later one. -/
theorem Begins.grows_between {k' : Nat} {part' : Step} (h : Begins k step part)
    (h' : Begins k' step part') (hlt : k < k') : part.ending.store.Grows part'.state.store := by
  induction k' generalizing part' with
  | zero => exact absurd hlt (Nat.not_lt_zero k)
  | succ k' ih =>
      obtain ⟨before, hbefore, hstore⟩ := h'.succ
      rw [hstore]
      rcases Nat.lt_succ_iff_lt_or_eq.mp hlt with hlt | rfl
      · exact (ih hbefore hlt).trans before.grows
      · exact .of_eq (by rw [h.unique hbefore])

theorem Begins.grows_ending (h : Begins k step part) :
    part.ending.store.Grows step.ending.store := by
  obtain ⟨k', last, hlast, hmax⟩ := h.exists_last
  have hend : last.ending.store.Grows step.ending.store :=
    (last.ending.store.grows_after step.closing).trans
      (hlast.last fun part' h' => Nat.not_succ_le_self k' (hmax _ part' h')).grows
  rcases Nat.lt_or_eq_of_le (hmax k part h) with hlt | rfl
  · exact (h.grows_between hlast hlt).trans (last.grows.trans hend)
  · rwa [h.unique hlast]

theorem Comes.grows (h : step.Comes part) : step.state.store.Grows part.state.store := by
  induction h with
  | refl => exact .refl _
  | begins hbegins _ ih => exact hbegins.grows.trans ih

theorem Comes.grows_ending (h : step.Comes part) : part.ending.store.Grows step.ending.store := by
  induction h with
  | refl => exact .refl _
  | begins hbegins _ ih => exact ih.trans hbegins.grows_ending

end ClosureLang.Step
