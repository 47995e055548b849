import ClosureLang.Proofs.Scoping.Lemmas.Resolving
import ClosureLang.Session

/-!
# A name has the value it was bound to last, in the nearest scope that binds it
-/

namespace ClosureLang

variable {changes : List Change} {store : Store} {step : Step} {size : Nat} {value : Object}

/-! ## A history keeps the scopes in order -/

theorem Object.basic_true : Object.Basic fun _ => True :=
  ⟨fun _ _ => trivial, fun _ => trivial, trivial⟩

theorem Object.Rooted.grounded (h : value.Rooted size) : value.Grounded (fun _ => True) size := by
  refine ⟨h, ?_⟩
  induction value with
  | returned id inner ih => exact ⟨trivial, ih h⟩
  | _ => trivial

namespace Store

theorem Grounded.of_scopes_eq {P : Object → Prop} {store' : Store} (h : store.Grounded P)
    (heq : store'.scopes = store.scopes) : store'.Grounded P := by
  obtain ⟨scopes, made⟩ := store'
  subst heq
  exact ⟨h.outer_lt, h.bound⟩

theorem Starts.grounded (h : store.Starts step) (hstore : store.Grounded fun _ => True) :
    step.Grounded fun _ => True := by
  cases h with
  | @node _ node _ hscope =>
      refine ⟨hscope, ⟨hstore, nofun⟩, ?_, fun _ _ _ _ => trivial⟩
      cases node with
      | program whole => exact nofun
      | _ => trivial
  | call hscope hcallee hvalues =>
      exact ⟨hscope, ⟨hstore, nofun⟩, ⟨hcallee.grounded, fun value hmem =>
        (hvalues value hmem).grounded⟩, fun _ _ _ _ => trivial⟩

theorem Starts.state_eq (h : store.Starts step) : step.state.store = store := by
  cases h <;> rfl

/-- Whatever a store has gone through, it is in order and has recorded its history. -/
theorem HasHistory.grounded_and_records (h : HasHistory changes store) :
    store.Grounded (fun _ => True) ∧ store.Records changes := by
  induction h with
  | empty => exact ⟨.empty, .empty⟩
  | newScope _ houter ih => exact ⟨ih.1.newScope houter, ih.2.opened _⟩
  | set _ hscope hvalue ih => exact ⟨ih.1.set hvalue.grounded, ih.2.bound hscope _ _⟩
  | @evaluated _ _ store depth node scope _ _ hscope hchanges hresult ih =>
      have hstart : (node.start depth scope store).Grounded fun _ => True :=
        (Starts.node hscope).grounded ih.1
      have heq := (Node.adds_evaluate? hresult).scopes_eq
      exact ⟨(hstart.safe Object.basic_true).ending.store.of_scopes_eq heq,
        (hchanges.records Object.basic_true hstart _ ih.2).of_scopes_eq heq⟩
  | ended _ hstarts hchanges ih =>
      have hstart := hstarts.grounded ih.1
      exact ⟨(hstart.safe Object.basic_true).ending.store,
        hchanges.records Object.basic_true hstart _ (hstarts.state_eq ▸ ih.2)⟩
  | begun _ hstarts hafter ih =>
      have hstart := hstarts.grounded ih.1
      exact ⟨(hstart.comes Object.basic_true hafter.comes).state.store,
        hafter.records Object.basic_true hstart (hstarts.state_eq ▸ ih.2)⟩

end Store

/-! ## Resolving names -/

/-- In every store with a history, scopes lead outwards to older ones, and a name has the value that
it was bound to last in the first scope of the chain that has bound it. What an evaluation adds to
the history is settled. A function literal captures the scope in which it stands. In the scope of a
call, a parameter has the last argument of that name, and all other names have the values that they
now have in the captured scope. -/
theorem names_resolve_to_nearest_latest (h : store.HasHistory changes) :
    (∀ scope outer, store.outer? scope = some outer → outer < scope) ∧
    (∀ scope, ∃ chain, store.Chain scope chain ∧
      ∀ name, store.get? scope name = chain.findSome? (lastBound? changes · name)) ∧
    (∀ step : Step, ∃! more, step.Changes more) ∧
    (∀ enter token parameters body scope s, ∃ id s',
      Run.expression enter (.function token parameters body) scope s =
        .ok (.function id ⟨parameters, body, scope⟩) s') ∧
    ∀ id (closure : Closure) (values : List Object) (journal : List Event),
      closure.parameters.length = values.length →
      ∃ s : Run.State,
        (∀ enter, Run.call enter (.function id closure) values ⟨store, journal⟩ =
          (do
            let result ← enter closure.body store.scopes.size
            return result.unwrapped : Run Object) s) ∧
        (∀ i parameter value, closure.parameters[i]? = some parameter → values[i]? = some value →
          (∀ later ∈ closure.parameters.drop (i + 1), later.name ≠ parameter.name) →
          s.store.get? store.scopes.size parameter.name = some value) ∧
        ∀ name, (∀ parameter ∈ closure.parameters, parameter.name ≠ name) →
          s.store.get? store.scopes.size name = store.get? closure.scope name := by
  obtain ⟨hgrounded, hrecords⟩ := h.grounded_and_records
  refine ⟨hgrounded.outer_lt, fun scope => ?_, Step.existsUnique_changes,
    fun _ _ _ _ _ _ => ⟨_, _, rfl⟩, fun id closure values journal hlength => ?_⟩
  · obtain ⟨chain, hchain⟩ := hgrounded.exists_chain scope
    refine ⟨chain, hchain, fun name => ?_⟩
    rw [hgrounded.get?_eq hchain name]
    exact congrArg (chain.findSome? ·) (funext fun i => hrecords i name)
  · obtain ⟨s, hprepare, hstore⟩ := Run.prepare_eq closure values ⟨store, journal⟩
    have hinside : s.store = store.inside closure values := hstore
    refine ⟨s, fun enter => ?_, fun i parameter value hparameter hvalue hlast => ?_,
      fun name hname => ?_⟩
    · rw [Run.call_function_eq hlength, Run.bind_eq hprepare]
    · rw [hinside]
      exact Store.inside_parameter hparameter hvalue hlast
    · rw [hinside]
      exact Store.inside_other hname

/-- A function that has captured a scope in which `m` is bound, and a later `m` outside. -/
def shadowing : Program :=
  (parse "let f = fn(m, m) \x7b fn(n) \x7b n + m \x7d \x7d(1, 2); let m = 7; let m = 8;").program

/-- The first scope is the one outside, and the second one is that of the call. -/
theorem shadowing_resolves :
    ∃ result changes, (Node.program shadowing).evaluate? 1 0 Session.new.store = some result ∧
      result.store.HasHistory changes ∧
      (result.store.get? 0 "m").map Object.inspect = some "8" ∧
      (result.store.get? 1 "m").map Object.inspect = some "2" ∧
      ∃ chain, result.store.Chain 1 chain ∧
        ∀ name, result.store.get? 1 name = chain.findSome? (lastBound? changes · name) := by
  have hsome : ((Node.program shadowing).evaluate? 1 0 Session.new.store).any (fun result =>
      (result.store.get? 0 "m").map Object.inspect == some "8" &&
        (result.store.get? 1 "m").map Object.inspect == some "2") = true := by decide +kernel
  obtain ⟨result, hresult, hvalues⟩ := (Option.any_eq_true ..).mp hsome
  obtain ⟨houtside, hinside⟩ := Bool.and_eq_true_iff.mp hvalues
  obtain ⟨more, hmore⟩ := ((Node.program shadowing).start 1 0 Session.new.store).exists_changes
  have hnew : Session.new.store.HasHistory ([] ++ [.opened none]) := .newScope .empty nofun
  have hhistory := Store.HasHistory.evaluated hnew (by decide) hmore hresult
  exact ⟨result, _, hresult, hhistory, eq_of_beq houtside, eq_of_beq hinside,
    (names_resolve_to_nearest_latest hhistory).2.1 1⟩

end ClosureLang
