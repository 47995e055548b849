import ClosureLang.Proofs.Reaching.Lemmas.Mirroring
import ClosureLang.Proofs.Reaching.Lemmas.Reached
import ClosureLang.Proofs.Running.Theorems
import ClosureLang.Session

/-!
# What a call depends on

A call sees of the store what the function and its arguments lead to, and leaves that as it is.
-/

namespace ClosureLang

theorem Run.EndsMirrored.sameOutcome {ρ : Renaming} {r : Region}
    {result result' : EStateM.Result Stop State Object} (hρ : ρ.Faithful r)
    (h : EndsMirrored ρ r (Object.renamed ρ) (Object.In r) result result') :
    SameOutcome ρ result result' := by
  cases h with
  | ok hs hvalue => exact .value (hs.corresponds hρ (by simpa using hvalue))
  | error _ => exact .stop

theorem Run.EndsMirrored.ending {α α' : Type} {ρ : Renaming} {r : Region} {move : α → α'}
    {Q : α → Prop} {result : EStateM.Result Stop State α} {result' : EStateM.Result Stop State α'}
    (h : EndsMirrored ρ r move Q result result') :
    (ending result).store.Mirrors ρ r (ending result').store := by
  cases h with
  | ok hs _ => exact hs
  | error hs => exact hs

namespace Store

variable {store store' : Store} {callee : Object} {arguments : List Object}

theorem Agrees.call (h : store.Agrees (callee :: arguments) store') (depth : Nat)
    (journal journal' : List Event) :
    Run.EndsMirrored (.between store store') (.ahead store store' (callee :: arguments))
      (Object.renamed (.between store store'))
      (Object.In (.ahead store store' (callee :: arguments)))
      (Run.call (Run.body depth) callee arguments ⟨store, journal⟩)
      (Run.call (Run.body depth) callee arguments ⟨store', journal'⟩) := by
  have hin (root) (hmem : root ∈ callee :: arguments) := h.in_ahead root (.root hmem)
  have hname (root) (hmem : root ∈ callee :: arguments) := h.renamed_eq root (.root hmem)
  have harguments : arguments.map (Object.renamed (.between store store')) = arguments :=
    (List.map_congr_left fun a ha => hname a (List.mem_cons_of_mem _ ha)).trans
      (List.map_id arguments)
  have hcall := Run.mirrors_call h.faithful (Run.mirrors_body h.faithful depth)
    (hin callee List.mem_cons_self) fun a ha => hin a (List.mem_cons_of_mem _ ha)
  rw [hname callee List.mem_cons_self, harguments] at hcall
  exact hcall ⟨store, journal⟩ ⟨store', journal'⟩ h.mirrors

/-- A call leaves all that it depends on. -/
theorem Agrees.after (h : store.Agrees (callee :: arguments) store) (depth : Nat)
    (journal : List Event) :
    store.Agrees (callee :: arguments)
      (Run.ending (Run.call (Run.body depth) callee arguments ⟨store, journal⟩)).store := by
  have hkeeps : store.Keeps store.scopes.size
      (Run.ending (Run.call (Run.body depth) callee arguments ⟨store, journal⟩)).store :=
    (Run.writes_call (Run.writes_body depth) callee arguments).keeps ⟨store, journal⟩
  have hmore : store.Agrees (callee :: arguments) { store with made := store.made + 1 } :=
    { h with
      made := fun value hv => ⟨(h.made value hv).1, (h.made value hv).1.mono (Nat.le_succ _)⟩ }
  have hmade := (hmore.call depth journal journal).ending.made_le
  exact
    { lt_size := fun i hi =>
        ⟨(h.lt_size i hi).1, Nat.lt_of_lt_of_le (h.lt_size i hi).1 hkeeps.size_le⟩
      bindings := fun i hi name => by
        have hlt := (h.lt_size i hi).1
        rw [getLocal?, getLocal?, hkeeps.bindings i hlt (Nat.ne_of_lt hlt)]
      outer := fun i hi => hkeeps.outer i (h.lt_size i hi).1
      made := fun value hv => ⟨(h.made value hv).1, (h.made value hv).1.mono hmade⟩ }

end Store

/-- A call has the same outcome in stores that agree on all that the function and its arguments lead
to. Right after the call, whatever it has done, it has the same outcome once more. -/
theorem call_depends_on_what_is_reached {store store' : Store} {callee : Object}
    {arguments : List Object} (h : store.Agrees (callee :: arguments) store') (depth : Nat)
    (journal journal' : List Event) :
    let call := Run.call (Run.body depth) callee arguments
    let after := Run.ending (call ⟨store, journal⟩)
    Run.SameOutcome (.between store store') (call ⟨store, journal⟩) (call ⟨store', journal'⟩) ∧
      Run.SameOutcome (.between store after.store) (call ⟨store, journal⟩) (call after) := by
  have hafter := h.refl.after depth journal
  exact ⟨(h.call depth journal journal').sameOutcome h.faithful,
    (hafter.call depth journal _).sameOutcome hafter.faithful⟩

/-- A function that gives a function, which adds what it was given to what is bound outside. -/
def adder : Object :=
  .function (.fresh 1)
    ⟨[⟨.eof 0, "x"⟩], ⟨.eof 0, (parse "fn() \x7b n + x \x7d").program.statements⟩, 0⟩

/-- A store in which it is bound, with other scopes besides. -/
def adderStore (others : List Scope) (made : Nat) : Store :=
  ⟨(⟨[("n", .integer (.fresh 0) 2), ("adder", adder)], none⟩ :: others).toArray, made⟩

theorem adder_enclosed (others : List Scope) (made : Nat) :
    Region.Encloses ⟨(· = 0), (· < 3)⟩ (adderStore others made) [adder, .integer (.fresh 2) 5] where
  outer i outer hi houter := by
    subst hi
    cases houter
  bound i name value hi hvalue := by
    subst hi
    have hfind : Scope.find? name [("n", .integer (.fresh 0) 2), ("adder", adder)] = some value :=
      hvalue
    simp only [Scope.find?] at hfind
    split at hfind
    · cases hfind
      exact (by decide : 0 < 3)
    · split at hfind
      · cases hfind
        exact ⟨(by decide : 1 < 3), rfl⟩
      · cases hfind
  roots := by
    simp [adder, Object.In, ObjectId.In]

/-- Its own scope is all that it needs. -/
theorem adderStore_agrees (others others' : List Scope) {made made' : Nat} (hmade : 3 ≤ made)
    (hmade' : 3 ≤ made') :
    (adderStore others made).Agrees [adder, .integer (.fresh 2) 5] (adderStore others' made') where
  lt_size i hi := by
    obtain rfl : i = 0 := (adder_enclosed others made).scope hi
    exact ⟨Nat.zero_lt_succ _, Nat.zero_lt_succ _⟩
  bindings i hi name := by
    obtain rfl : i = 0 := (adder_enclosed others made).scope hi
    rfl
  outer i hi := by
    obtain rfl : i = 0 := (adder_enclosed others made).scope hi
    rfl
  made value hv := by
    have hin := ((adder_enclosed others made).object hv).id
    cases hid : value.id with
    | fresh serial =>
        rw [hid] at hin
        exact ⟨Nat.lt_of_lt_of_le hin hmade, Nat.lt_of_lt_of_le hin hmade'⟩
    | _ => exact ⟨trivial, trivial⟩

/-- The function that is called gives a function, also where something else is called `x`. -/
theorem adder_gives_the_same :
    let call := Run.call (Run.body 1) adder [.integer (.fresh 2) 5]
    let s : Run.State := ⟨adderStore [] 3, []⟩
    let t : Run.State := ⟨adderStore [⟨[("x", .integer (.fresh 3) 7)], some 0⟩] 4, []⟩
    s.store.Agrees [adder, .integer (.fresh 2) 5] t.store ∧
      (match call s with
        | .ok value _ => value.type == .function
        | .error _ _ => false) = true ∧
      Run.SameOutcome (.between s.store t.store) (call s) (call t) ∧
      Run.SameOutcome (.between s.store (Run.ending (call s)).store) (call s)
        (call (Run.ending (call s))) := by
  have hagrees := adderStore_agrees [] [⟨[("x", .integer (.fresh 3) 7)], some 0⟩]
    (Nat.le_refl 3) (Nat.le_succ 3)
  exact ⟨hagrees, by decide +kernel, call_depends_on_what_is_reached hagrees 1 [] []⟩

end ClosureLang
