import ClosureLang.Proofs.Running.Lemmas.Store
import ClosureLang.Proofs.Scoping.History
import ClosureLang.Proofs.Stepping.Lemmas.Changing
import ClosureLang.Proofs.Stepping.Lemmas.Grounded

/-!
# The history of the bindings

What is bound in a store is what its history bound last. Each change keeps it so, and then so does a
step, by induction on its changes.
-/

namespace ClosureLang

variable {P : Object → Prop} {log changes : List Change} {store store' : Store} {scope : ScopeId}
  {name : String} {value : Object}

/-! ## One change -/

theorem lastBound?_concat (log : List Change) (change : Change) (i : ScopeId) (name : String) :
    lastBound? (log ++ [change]) i name = (change.bound? i name).or (lastBound? log i name) := by
  rw [lastBound?, List.reverse_append, List.findSome?_append, List.reverse_singleton,
    List.findSome?_singleton]
  rfl

/-- Every name has the value in a scope that it was bound to last. -/
def Store.Records (log : List Change) (store : Store) : Prop :=
  ∀ i name, store.getLocal? i name = lastBound? log i name

namespace Store.Records

theorem empty : Records [] Store.empty := by
  intro i name
  rw [getLocal?_of_size_le (Nat.zero_le i)]
  rfl

theorem opened (h : Records log store) (outer : Option ScopeId) :
    Records (log ++ [.opened outer]) (store.newScope outer).2 := by
  intro i name
  rw [getLocal?_newScope, h i name, lastBound?_concat]
  rfl

theorem bound (h : Records log store) (hscope : scope < store.scopes.size) (name : String)
    (value : Object) : Records (log ++ [.bound scope name value]) (store.set scope name value) := by
  intro i other
  rw [getLocal?_set, h i other, lastBound?_concat, Change.bound?]
  by_cases hsame : scope = i ∧ name = other
  · obtain ⟨rfl, rfl⟩ := hsame
    rw [if_pos ⟨rfl, hscope, rfl⟩, if_pos ⟨rfl, rfl⟩]
    rfl
  · rw [if_neg (fun hset => hsame ⟨hset.1, hset.2.2.symm⟩), if_neg hsame]
    rfl

theorem of_scopes_eq (h : Records log store) (heq : store'.scopes = store.scopes) :
    Records log store' := by
  intro i name
  rw [getLocal?, heq]
  exact h i name

theorem bindings : (parameters : List Identifier) → (values : List Object) →
    {log : List Change} → {store : Store} → Records log store → scope < store.scopes.size →
    Records (log ++ bindings scope parameters values)
      (store.after (bindings scope parameters values))
  | [], [], log, _, h, _ | [], _ :: _, log, _, h, _ | _ :: _, [], log, _, h, _ =>
      (List.append_nil log).symm ▸ h
  | parameter :: parameters, value :: values, log, store, h, hscope => by
      have hset := h.bound hscope parameter.name value
      have hrest := bindings parameters values hset (by rwa [size_set])
      rwa [List.append_assoc] at hrest

end Store.Records

/-! ## A step -/

namespace Step

variable {step part step' : Step} {k : Nat}

theorem opening_cases (step : Step) : step.opening = [] ∨ ∃ outer parameters values,
    step.opening = .opened outer :: bindings step.state.store.scopes.size parameters values := by
  rw [opening]
  split
  · split
    · exact .inr ⟨_, _, _, rfl⟩
    · exact .inl rfl
  · exact .inl rfl

theorem closing_cases (step : Step) :
    step.closing = [] ∨ ∃ name value, step.closing = [.bound step.scope name value] := by
  rw [closing]
  split
  · next token name expr _ =>
    dsimp only
    generalize Run.value? _ = value
    cases value with
    | none => exact .inl rfl
    | some value => exact .inr ⟨name.name, value, rfl⟩
  · exact .inl rfl

theorem records_opening (h : step.state.store.Records log) :
    (step.state.store.after step.opening).Records (log ++ step.opening) := by
  rcases step.opening_cases with hnone | ⟨outer, parameters, values, hopening⟩
  · rw [hnone, List.append_nil]
    exact h
  · have hsize := step.state.store.size_newScope outer
    have hinside := (h.opened outer).bindings parameters values
      (Nat.lt_of_lt_of_eq (Nat.lt_succ_self _) hsize.symm)
    rwa [hopening, List.append_cons]

theorem records_closing (h : store.Records log) (hscope : step.scope < store.scopes.size) :
    (store.after step.closing).Records (log ++ step.closing) := by
  rcases step.closing_cases with hnone | ⟨name, value, hclosing⟩
  · rw [hnone, List.append_nil]
    exact h
  · rw [hclosing]
    exact h.bound hscope name value

/-- The store in which a part begins has recorded the changes of those in front of it. -/
theorem Begins.records {inner : Nat → List Change} (hP : Object.Basic P)
    (hbegins : Begins k step part) (h : step.Grounded P) (hlog : step.state.store.Records log)
    (hbefore : ∀ j < k, ∀ before, Begins j step before → before.Grounded P → ∀ log,
      before.state.store.Records log → before.ending.store.Records (log ++ inner j)) :
    part.state.store.Records (log ++ step.opening ++ (List.range k).flatMap inner) := by
  induction k generalizing part with
  | zero =>
      rw [hbegins.first, List.range_zero, List.flatMap_nil, List.append_nil]
      exact records_opening hlog
  | succ k ih =>
      obtain ⟨before, hbegins', hstore⟩ := hbegins.succ
      have hstart := ih hbegins' fun j hj => hbefore j (Nat.lt_succ_of_lt hj)
      have hend := hbefore k (Nat.lt_succ_self k) before hbegins' (h.begins hP hbegins') _ hstart
      rw [hstore, List.range_succ, List.flatMap_append, List.flatMap_singleton, ← List.append_assoc]
      exact hend

theorem Changes.records (hP : Object.Basic P) (h : step.Changes changes) :
    step.Grounded P → ∀ log, step.state.store.Records log →
      step.ending.store.Records (log ++ changes) := by
  induction h with
  | @intro step inner _ hnone ih =>
      intro hstep log hlog
      by_cases hbegins : ∃ part, Begins 0 step part
      · obtain ⟨part, hfirst⟩ := hbegins
        obtain ⟨k, last, hlast, hmax⟩ := hfirst.exists_last
        have hstart := hlast.records hP hstep hlog fun j _ => ih j
        have hend := ih k last hlast (hstep.begins hP hlast) _ hstart
        have hinner : (List.range 3).flatMap inner = (List.range k).flatMap inner ++ inner k := by
          rw [flatMap_range_of_last hlast, List.range_succ, List.flatMap_append,
            List.flatMap_singleton]
          exact fun j hj => hnone j fun part' h' => Nat.not_le_of_lt hj (hmax j part' h')
        have hscope : step.scope < last.ending.store.scopes.size :=
          Nat.lt_of_lt_of_le hstep.scope_lt (hlast.grows.trans last.grows).size_le
        have hadds := hlast.last fun part' h' => Nat.not_succ_le_self k (hmax _ part' h')
        rw [hinner, ← List.append_assoc, ← List.append_assoc, ← List.append_assoc]
        exact (records_closing hend hscope).of_scopes_eq hadds.scopes_eq
      · have hnot := not_exists.mp hbegins
        have hinner : (List.range 3).flatMap inner = [] :=
          List.flatMap_eq_nil_iff.mpr fun k _ => hnone k fun part h' =>
            (h'.exists_of_le (Nat.zero_le k)).elim hnot
        obtain ⟨hclosing, hadds⟩ := ending_of_not_begins hnot
        rw [hinner, hclosing, List.append_nil, List.append_nil]
        exact (records_opening hlog).of_scopes_eq hadds.scopes_eq

theorem ComesAfter.records (hP : Object.Basic P) (h : step.ComesAfter changes step')
    (hstep : step.Grounded P) (hlog : step.state.store.Records log) :
    step'.state.store.Records (log ++ changes) := by
  induction h generalizing log with
  | refl =>
      rw [List.append_nil]
      exact hlog
  | begins inner hbegins hinner _ ih =>
      have hstart := hbegins.records hP hstep hlog fun j hj before hbefore =>
        (hinner j hj before hbefore).records hP
      rw [← List.append_assoc, ← List.append_assoc]
      exact ih (hstep.begins hP hbegins) hstart

theorem ComesAfter.comes (h : step.ComesAfter changes step') : step.Comes step' := by
  induction h with
  | refl => exact .refl
  | begins _ hbegins _ _ ih => exact .begins hbegins ih

end Step

end ClosureLang
