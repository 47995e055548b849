import ClosureLang.Proofs.Comparing.Lemmas.Makers
import ClosureLang.Session

/-!
# Where the values of a run come from

A truth value or a null is the shared one, and a function or a wrapping is made by a step of the
run.
-/

namespace ClosureLang

variable {P : Object → Prop} {depth : Nat} {scope : ScopeId} {s : Run.State} {value : Object}

theorem Object.Throughout.self (h : value.Throughout P) : P value := by
  cases value with
  | returned _ _ => exact h.1
  | _ => exact h

theorem Step.Safe.throughout {step : Step} (h : step.Safe P) (hgives : step.Gives value) :
    value.Throughout P := by
  cases hgives with
  | expression hv | call hv | block hv => exact (Run.Lands.of_ok h hv).2.2.throughout
  | statement hv | statements hv => exact ((Run.Lands.of_ok h hv).2.2 value rfl).throughout

namespace Run

/-! ## Programs keep a property of their values -/

/-- The property of an answer that is not an error. -/
abbrev GroundedAnswer (P : Object → Prop) (size : Nat) (answer : Option Object) : Prop :=
  ∀ value ∈ answer, value.isError = false → value.Grounded P size

abbrev GroundedAnswers (P : Object → Prop) (size : Nat) (answers : List (Option Object)) : Prop :=
  ∀ answer ∈ answers, GroundedAnswer P size answer

theorem Lands.settle {run : Run (Option Object)} (h : Lands P (GroundedAnswer P) s (run s)) :
    Lands P (GroundedAnswer P) s (settle run s) := by
  rw [settle_eq]
  unfold Lands at h ⊢
  generalize run s = r at h ⊢
  cases h with
  | ok h => exact .ok h
  | @error stop s' h =>
      cases stop with
      | tooDeep => exact .error h
      | raised error =>
          refine .ok ⟨h.1.newId, h.2, fun answer hmem hnot => ?_⟩
          cases hmem
          cases hnot

theorem Lands.program (hP : Object.Basic P) {first : Program}
    (h : (first.start depth scope s).Grounded P) :
    Lands P (GroundedAnswer P) s ((Node.program first).run depth scope s) := by
  have hsafe : Lands P (Object.AllGrounded P) s
      (sequence (body depth) first.statements none scope s) := h.safe hP
  refine .settle (.bind hsafe fun last s' _ ⟨hs', _, hlast⟩ => .refl hs' fun value hmem _ => ?_)
  obtain ⟨object, hobject, rfl⟩ := Option.map_eq_some_iff.mp hmem
  exact (hlast object hobject).unwrapped

/-- The programs begin with nothing but what has the property, and make nothing else. -/
structure GroundedPrograms (P : Object → Prop) (depth : Nat) (scope : ScopeId)
    (list : List Program) (s : State) : Prop where
  scope_lt : scope < s.store.scopes.size
  state : s.Grounded P
  makes : ∀ step made, ProgramsCome depth scope list s step → step.Makes made → P made

namespace GroundedPrograms

variable {whole : Program} {others list : List Program} {answer : Option Object} {s' : State}
  {step : Step}

theorem first (h : GroundedPrograms P depth scope (whole :: others) s) :
    (whole.start depth scope s).Grounded P :=
  ⟨h.scope_lt, h.state, nofun, fun step made hcomes => h.makes step made (.first hcomes)⟩

theorem rest (hP : Object.Basic P) (h : GroundedPrograms P depth scope (whole :: others) s)
    (hrun : (Node.program whole).run depth scope s = .ok answer s') :
    GroundedPrograms P depth scope others s' := by
  obtain ⟨hs', hle, -⟩ := (Lands.program hP h.first).of_ok hrun
  exact ⟨Nat.lt_of_lt_of_le h.scope_lt hle, hs', fun step made hcomes =>
    h.makes step made (.rest hrun hcomes)⟩

theorem comes (hP : Object.Basic P) (h : GroundedPrograms P depth scope list s)
    (hcomes : ProgramsCome depth scope list s step) : step.Grounded P := by
  induction hcomes with
  | first hcomes => exact h.first.comes hP hcomes
  | rest hrun _ ih => exact ih (h.rest hP hrun)

theorem lands (hP : Object.Basic P) (h : GroundedPrograms P depth scope list s) :
    Lands P (GroundedAnswers P) s (programs depth scope list s) := by
  induction list generalizing s with
  | nil => exact .refl h.state nofun
  | cons whole others ih =>
      refine .bind (.program hP h.first) fun answer s₁ hrun ⟨_, _, hanswer⟩ => ?_
      refine .bind (ih (h.rest hP hrun)) fun answers s₂ _ ⟨hs₂, hle, hanswers⟩ => ?_
      refine .refl hs₂ (List.forall_mem_cons.mpr ⟨fun value hmem hnot => ?_, hanswers⟩)
      exact (hanswer value hmem hnot).mono hle

end GroundedPrograms

theorem HasValue.throughout {list : List Program} (h : HasValue depth scope list s value)
    (hP : Object.Basic P) (hprograms : GroundedPrograms P depth scope list s) :
    value.Throughout P := by
  have hlands := hprograms.lands hP
  induction h with
  | given hcomes hgives => exact ((hprograms.comes hP hcomes).safe hP).throughout hgives
  | used hmem => exact (hlands.ending.used _ _ hmem).throughout
  | bound hv => exact (hlands.ending.store.bound _ _ _ hv).throughout
  | answered heq hmem hnot => exact ((hlands.of_ok heq).2.2 _ hmem _ rfl hnot).throughout
  | inner _ ih => exact ih.2

/-! ## The values of a run from the beginning -/

/-- Null and truth values are the shared ones, and functions and wrappings are made on the way. -/
def Knows (depth : Nat) (scope : ScopeId) (list : List Program) (s : State) : Object → Prop
  | .integer _ _ => True
  | .boolean id value => id = .boolean value
  | .null id => id = .null
  | .error _ _ => False
  | made => ∃ step, ProgramsCome depth scope list s step ∧ step.Makes made

theorem basic_knows (list : List Program) : Object.Basic (Knows depth scope list s) :=
  ⟨fun _ _ => trivial, fun _ => rfl, rfl⟩

theorem ProgramsCome.knows {list : List Program} {step : Step}
    (h : ProgramsCome depth scope list s step) (hmakes : step.Makes value) :
    Knows depth scope list s value := by
  cases hmakes with
  | function => exact ⟨_, h, .function⟩
  | returned hv => exact ⟨_, h, .returned hv⟩

theorem groundedPrograms_new (depth : Nat) (list : List Program) :
    GroundedPrograms (Knows depth Session.new.scope list ⟨Session.new.store, []⟩) depth
      Session.new.scope list ⟨Session.new.store, []⟩ where
  scope_lt := by decide
  state := ⟨.newScope .empty nofun, nofun⟩
  makes _ _ := ProgramsCome.knows

/-- In a run from a new session, nothing else can be a value. -/
theorem HasValue.knows {list : List Program}
    (h : HasValue depth Session.new.scope list ⟨Session.new.store, []⟩ value) :
    Knows depth Session.new.scope list ⟨Session.new.store, []⟩ value :=
  (h.throughout (basic_knows list) (groundedPrograms_new depth list)).self

end Run

end ClosureLang
