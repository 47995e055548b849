import ClosureLang.Proofs.Confinement.Lemmas.Runs
import ClosureLang.Proofs.Running.Theorems
import ClosureLang.Session

/-!
# Where returned objects stay

A program that confines what it returns binds nothing returned, and neither it nor a function of
its kind answers with anything returned.
-/

namespace ClosureLang

theorem Run.Confines.ending {α : Type} {Q : α → Prop} {run : Run α} {past : List Event}
    {s : State} (h : Confines Q run) (hs : Confined past s) : Confined past (ending (run s)) := by
  have hrun := h past s hs
  generalize run s = r at hrun ⊢
  cases hrun with
  | ok hq => exact hq.1
  | error he => exact he

theorem Run.Confines.result {α : Type} {Q : α → Prop} {run : Run α} {s s' : State} {a : α}
    (h : Confines Q run) (hs : s.store.Confined) (hrun : run s = .ok a s') : Q a := by
  have hr := h _ s (.start hs)
  rw [hrun] at hr
  cases hr with
  | ok hq => exact hq.2

/-! ## Bindings -/

theorem Session.getLocal?_new (scope : ScopeId) (name : String) :
    Session.new.store.getLocal? scope name = none := by
  cases scope <;> rfl

theorem Session.confined_new : Session.new.store.Confined := by
  intro scope name value h
  rw [getLocal?_new] at h
  cases h

/-- The state in which the program of a source ends that runs in a session of its own, or in which
it goes deeper than allowed. -/
def endingOf (source : String) (depth : Nat) : Run.State :=
  Run.ending
    ((Node.program (parse source).program).run depth Session.new.scope ⟨Session.new.store, []⟩)

theorem confined_endingOf {source : String} (h : (parse source).program.confined = true)
    (depth : Nat) : Run.Confined [] (endingOf source depth) :=
  (Node.confines_program h depth _).ending ⟨Session.confined_new, by simp⟩

/-- A program that confines what it returns binds nothing returned. The journal has the value of
every binding that is made on the way, by a `let` or for a parameter. -/
theorem returned_never_bound (source : String) (h : (parse source).program.confined = true)
    (depth : Nat) :
    (∀ value, .use .bound value ∈ (endingOf source depth).journal → ¬ value.IsReturned) ∧
      (endingOf source depth).store.Plain := by
  have hs := confined_endingOf h depth
  constructor
  · intro value hmem
    exact (hs.bound value hmem).resolve_left List.not_mem_nil
  · exact hs.store.plain

/-- A source with returns in branches and in functions, none of which it binds. -/
def boundedSource : String :=
  "let f = fn(n) \x7b if (n < 1) \x7b return n; \x7d f(n - 1) \x7d; " ++
    "let y = f(2); if (y == 0) \x7b return y; \x7d 5"

theorem bounded_source_binds_nothing_returned :
    (parse boundedSource).program.confined = true ∧
      ((endingOf boundedSource 9).store.getLocal? 0 "y").isSome = true ∧
      (∀ value, .use .bound value ∈ (endingOf boundedSource 9).journal → ¬ value.IsReturned) ∧
      (endingOf boundedSource 9).store.Plain :=
  ⟨by decide +kernel, by decide +kernel, returned_never_bound boundedSource (by decide +kernel) 9⟩

/-- A `let` binds what an `if` hands on. -/
theorem let_binds_returned :
    ¬ ∀ source, (parse source).errors = [] → ∀ depth, (endingOf source depth).store.Plain := by
  intro h
  have hbound : ((endingOf "let a = if (true) \x7b return 1; \x7d;" 0).store.getLocal? 0 "a").any
      (·.type = .returned) = true := by decide +kernel
  obtain ⟨value, hvalue, hr⟩ := (Option.any_eq_true ..).mp hbound
  have hreturned : value.type = .returned := of_decide_eq_true hr
  exact h _ (by decide +kernel) 0 0 "a" value hvalue hreturned

/-! ## Answers -/

/-- In a store and with arguments that confine what they return, no call and no program answers with
anything returned. -/
theorem return_stays_inside (depth : Nat) (store : Store) (hstore : store.Confined) :
    (∀ callee arguments journal value s', callee.Confined →
      (∀ argument ∈ arguments, argument.Confined) →
      Run.call (Run.body depth) callee arguments ⟨store, journal⟩ = .ok value s' →
      ¬ value.IsReturned) ∧
    ∀ (whole : Program) scope result, whole.confined = true →
      (Node.program whole).evaluate? depth scope store = some result →
      ∀ value ∈ result.value, ¬ value.IsReturned := by
  constructor
  · intro callee arguments journal value s' hcallee harguments hrun
    have hcall := Run.confines_call (Run.confines_body depth) (hcallee.yields false).1 harguments
    exact (hcall.result hstore hrun).not_returned
  · intro whole scope result hwhole hrun value hvalue
    rw [Node.evaluate?] at hrun
    split at hrun
    · next answer s' hok =>
      cases hrun
      have hanswer := (Node.confines_program hwhole depth scope).result hstore hok
      exact (hanswer value hvalue).not_returned
    · cases hrun

/-- A function of one parameter that calls itself until it returns. -/
def countdown : Object :=
  .function (.fresh 0) ⟨[⟨.eof 0, "n"⟩],
    ⟨.eof 0, (parse "if (n < 1) \x7b return n; \x7d f(n - 1)").program.statements⟩, 0⟩

/-- A session in which it is bound. -/
def countdownStore : Store :=
  Session.new.store.set 0 "f" countdown

theorem countdown_stays_inside :
    countdownStore.Confined ∧ countdown.Confined ∧
      (∃ value s', Run.call (Run.body 4) countdown [.integer (.fresh 7) 3] ⟨countdownStore, []⟩ =
        .ok value s' ∧ ¬ value.IsReturned) ∧
      ∃ result, (Node.program (parse "return f(3);").program).evaluate? 4 0 countdownStore =
        some result ∧ ∀ value ∈ result.value, ¬ value.IsReturned := by
  have hcallee : countdown.Confined := by
    have hbody : allConfined (parse "if (n < 1) \x7b return n; \x7d f(n - 1)").program.statements =
        true := by decide +kernel
    exact hbody
  have hstore : countdownStore.Confined := Session.confined_new.set hcallee 0 "f"
  have hstays := return_stays_inside 4 countdownStore hstore
  refine ⟨hstore, hcallee, ?_, ?_⟩
  · have hok : (match Run.call (Run.body 4) countdown [.integer (.fresh 7) 3]
        ⟨countdownStore, []⟩ with
      | .ok _ _ => true
      | .error _ _ => false) = true := by decide +kernel
    split at hok
    · next value s' hrun =>
      exact ⟨value, s', hrun, hstays.1 _ _ _ _ _ hcallee (by simp [Object.Confined]) hrun⟩
    · cases hok
  · have hsome : ((Node.program (parse "return f(3);").program).evaluate? 4 0
        countdownStore).isSome = true := by decide +kernel
    obtain ⟨result, hresult⟩ := Option.isSome_iff_exists.mp hsome
    exact ⟨result, hresult, hstays.2 _ _ _ (by decide +kernel) hresult⟩

/-- The text of a `return` that is given what an `if` hands on. -/
def doubleReturn : String :=
  "return if (true) \x7b return 1; \x7d;"

/-- A function with this text as its body. -/
def doubleReturner : Object :=
  .function (.fresh 0) ⟨[], ⟨.eof 0, (parse doubleReturn).program.statements⟩, 0⟩

/-- Two layers of wrapping are made, and only one comes off. -/
theorem return_crosses_boundary :
    (¬ ∀ depth store callee arguments value s', store.Plain → callee.type = .function →
      (∀ argument ∈ arguments, ¬ argument.IsReturned) →
      Run.call (Run.body depth) callee arguments ⟨store, []⟩ = .ok value s' →
      ¬ value.IsReturned) ∧
    ¬ ∀ depth (store : Store) (whole : Program) scope result, store.Plain →
      (Node.program whole).evaluate? depth scope store = some result →
      ∀ value ∈ result.value, ¬ value.IsReturned := by
  have hplain : Session.new.store.Plain := Session.confined_new.plain
  constructor
  · intro h
    have hreturned : (match Run.call (Run.body 1) doubleReturner [] ⟨Session.new.store, []⟩ with
      | .ok value _ => value.type == .returned
      | .error _ _ => false) = true := by decide +kernel
    split at hreturned
    · next value s' hrun =>
      exact h _ _ _ _ value s' hplain rfl (by simp) hrun (eq_of_beq hreturned)
    · cases hreturned
  · intro h
    have hreturned : ((Node.program (parse doubleReturn).program).evaluate? 0 0
        Session.new.store).any (·.value.any (·.type == .returned)) = true := by decide +kernel
    obtain ⟨result, hresult, hvalue⟩ := (Option.any_eq_true ..).mp hreturned
    obtain ⟨value, hmem, hr⟩ := (Option.any_eq_true ..).mp hvalue
    exact h _ _ _ _ result hplain hresult value hmem (eq_of_beq hr)

end ClosureLang
