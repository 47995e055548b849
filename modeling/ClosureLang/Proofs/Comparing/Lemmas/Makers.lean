import ClosureLang.Proofs.Comparing.Values
import ClosureLang.Proofs.Stepping.Lemmas.Changing
import ClosureLang.Proofs.Stepping.Lemmas.Grounded

/-!
# Who has made an object

The count of the objects made so far gives each its identity, and it never goes back. What is made
in one part of a run is therefore never what is made in another part.
-/

namespace ClosureLang

variable {A B start step part : Step} {v w : Object} {k : Nat}

namespace Step

/-! ## In one step -/

theorem Makes.unique (h : step.Makes v) (h' : step.Makes w) : v = w := by
  cases h with
  | function => cases h' with | function => rfl
  | returned hv =>
      cases h' with
      | returned hw =>
          cases hv.symm.trans hw
          rfl

/-- The object is made while the step is on its way, behind all of its parts. -/
theorem Makes.exists_serial (h : step.Makes v) : ∃ serial, v.id = .fresh serial ∧
    step.state.store.made ≤ serial ∧ serial < step.ending.store.made ∧
    ∀ k part, Begins k step part → part.ending.store.made ≤ serial := by
  cases h with
  | function => exact ⟨_, rfl, Nat.le_refl _, Nat.lt_succ_self _, nofun⟩
  | @returned depth token value scope s inner s₁ hv =>
      have hends : (Run.ending (Run.forget (Run.expression (Run.body depth) value scope)
          (s.noted (.statement (.returnStmt token value))))).store.made = s₁.store.made := by
        rw [Run.ending_forget, Run.ending_eq hv]
      have hwhole : Run.statement (Run.body depth) (.returnStmt token value) scope s =
          .ok (some (.returned s₁.store.newId.1 inner))
            { s₁.used .returned inner with store := s₁.store.newId.2 } :=
        (Run.bind_eq rfl).trans ((Run.bind_eq hv).trans rfl)
      have hbegins : Begins 0 ⟨depth, .statement (.returnStmt token value), scope, s⟩ _ := .returned
      refine ⟨s₁.store.made, rfl, ?_, ?_, fun k part h => ?_⟩
      · exact Nat.le_trans (hbegins.grows.trans (grows _)).made_le (Nat.le_of_eq hends)
      · have hend := (Run.ending_forget _ s).trans (Run.ending_eq hwhole)
        exact Nat.lt_of_lt_of_eq (Nat.lt_succ_self _) (congrArg (·.store.made) hend).symm
      · cases h
        exact Nat.le_of_eq hends

/-! ## In all steps that one comes to -/

/-- What is made on the way of a step is made while it is on its way. -/
theorem Comes.exists_serial (h : start.Comes step) (hv : step.Makes v) :
    ∃ serial, v.id = .fresh serial ∧ start.state.store.made ≤ serial ∧
      serial < start.ending.store.made := by
  obtain ⟨serial, hid, hle, hlt, -⟩ := hv.exists_serial
  exact ⟨serial, hid, Nat.le_trans h.grows.made_le hle,
    Nat.lt_of_lt_of_le hlt h.grows_ending.made_le⟩

theorem Begins.id_ne (hA : A.Makes v) (h : Begins k A part) (hcomes : part.Comes B)
    (hB : B.Makes w) : v.id ≠ w.id := by
  obtain ⟨serial, hid, -, -, hparts⟩ := hA.exists_serial
  obtain ⟨serial', hid', -, hlt⟩ := hcomes.exists_serial hB
  have hle := hparts k part h
  rw [hid, hid']
  exact fun heq => absurd (ObjectId.fresh.inj heq) (by omega)

theorem Begins.id_ne_of_lt {k' : Nat} {part' : Step} (h : Begins k start part)
    (h' : Begins k' start part') (hlt : k < k') (hcomes : part.Comes A) (hcomes' : part'.Comes B)
    (hA : A.Makes v) (hB : B.Makes w) : v.id ≠ w.id := by
  obtain ⟨serial, hid, -, hserial⟩ := hcomes.exists_serial hA
  obtain ⟨serial', hid', hserial', -⟩ := hcomes'.exists_serial hB
  have hle := (h.grows_between h' hlt).made_le
  rw [hid, hid']
  exact fun heq => absurd (ObjectId.fresh.inj heq) (by omega)

/-- Objects with the same identity are made by the same step. -/
theorem Comes.maker_unique (h : start.Comes A) (h' : start.Comes B) (hA : A.Makes v)
    (hB : B.Makes w) (hid : v.id = w.id) : A = B := by
  induction h with
  | refl =>
      cases h' with
      | refl => rfl
      | begins hbegins hcomes => exact absurd hid (hbegins.id_ne hA hcomes hB)
  | @begins k _ _ _ hbegins hcomes ih =>
      cases h' with
      | refl => exact absurd hid.symm (hbegins.id_ne hB hcomes hA)
      | @begins k' _ _ _ hbegins' hcomes' =>
          rcases Nat.lt_trichotomy k k' with hlt | rfl | hlt
          · exact absurd hid (hbegins.id_ne_of_lt hbegins' hlt hcomes hcomes' hA hB)
          · cases hbegins.unique hbegins'
            exact ih hcomes' hA
          · exact absurd hid.symm (hbegins'.id_ne_of_lt hbegins hlt hcomes' hcomes hB hA)

end Step

/-! ## In programs one after another -/

namespace Run

variable {depth : Nat} {scope : ScopeId} {programs : List Program} {first : Program} {s s' : State}
  {answer : Option Object}

theorem adds_run (depth : Nat) (scope : ScopeId) (first : Program) (s : State) :
    (first.start depth scope s).ending.store.Adds
      (ending ((Node.program first).run depth scope s)).store := by
  have hadds := Store.Adds.settle (program (body depth) first scope) s
  rwa [program, ending_bind_pure, ← ending_forget] at hadds

theorem grows_run (hrun : (Node.program first).run depth scope s = .ok answer s') :
    (first.start depth scope s).ending.store.Grows s'.store := by
  have hadds := adds_run depth scope first s
  rw [ending_eq hrun] at hadds
  exact hadds.grows

namespace ProgramsCome

theorem grows (h : ProgramsCome depth scope programs s step) :
    s.store.Grows step.state.store := by
  induction h with
  | first hcomes => exact hcomes.grows
  | rest hrun _ ih => exact ((Step.grows _).trans (grows_run hrun)).trans ih

/-- What the first program makes is not what a later one makes. -/
theorem id_ne (hrun : (Node.program first).run depth scope s = .ok answer s')
    (h : (first.start depth scope s).Comes A) (h' : ProgramsCome depth scope programs s' B)
    (hA : A.Makes v) (hB : B.Makes w) : v.id ≠ w.id := by
  obtain ⟨serial, hid, -, hserial⟩ := h.exists_serial hA
  obtain ⟨serial', hid', hserial', -⟩ := hB.exists_serial
  have hle := ((grows_run hrun).trans h'.grows).made_le
  rw [hid, hid']
  exact fun heq => absurd (ObjectId.fresh.inj heq) (by omega)

theorem maker_unique (h : ProgramsCome depth scope programs s A)
    (h' : ProgramsCome depth scope programs s B) (hA : A.Makes v) (hB : B.Makes w)
    (hid : v.id = w.id) : A = B := by
  induction h with
  | first hcomes =>
      cases h' with
      | first hcomes' => exact hcomes.maker_unique hcomes' hA hB hid
      | rest hrun hcomes' => exact absurd hid (id_ne hrun hcomes hcomes' hA hB)
  | rest hrun hcomes ih =>
      cases h' with
      | first hcomes' => exact absurd hid.symm (id_ne hrun hcomes' hcomes hB hA)
      | rest hrun' hcomes' =>
          cases hrun.symm.trans hrun'
          exact ih hcomes' hA

end ProgramsCome

end Run

end ClosureLang
