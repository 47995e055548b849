import ClosureLang.Parser.Program
import ClosureLang.Proofs.Mentioning.Lemmas.Overlooking

/-!
# Names that are not mentioned have no influence
-/

namespace ClosureLang

variable {store : Store} {name : String} {scope : ScopeId} {node : Node}

namespace Store

/-- In a store within bounds, what a scope inside them shows omits the name. -/
theorem Within.omits_of_shows {S : ScopeId → Prop} {value : Object}
    (h : store.Within S (Object.Omits name S)) (hshows : store.Shows scope value) :
    S scope → value.Omits name S := by
  induction hshows with
  | bound hvalue => exact fun hscope => h.bound _ _ _ hscope hvalue
  | outer houter _ ih => exact fun hscope => ih (h.outer _ _ hscope houter)
  | inner _ ih => exact ih
  | captured _ _ ihfunction ihvalue => exact fun hscope => ihvalue (ihfunction hscope).2

theorem not_showsMention {S : ScopeId → Prop}
    (h : (store.without name).Within S (Object.Omits name S)) (hscope : S scope) :
    ¬ store.ShowsMention name scope := by
  rintro ⟨id, closure, hshows, hmentions⟩
  rw [(h.omits_of_shows hshows hscope).1] at hmentions
  cases hmentions

theorem omits_of_not_showsMention (value : Object) (h : ¬ store.ShowsMention name scope)
    (hshows : (store.without name).Shows scope value) :
    value.Omits name fun i => ¬ store.ShowsMention name i := by
  match value with
  | .function id closure =>
      refine ⟨Bool.eq_false_iff.mpr fun hmentions => h ⟨id, closure, hshows, hmentions⟩, ?_⟩
      rintro ⟨id', closure', hinside, hmentions⟩
      exact h ⟨id', closure', .captured hshows hinside, hmentions⟩
  | .returned id inner => exact omits_of_not_showsMention inner h (.inner hshows)
  | .integer _ _ | .boolean _ _ | .null _ | .error _ _ => trivial

/-- The scopes from which no function that mentions the name can be come to. -/
theorem within_omits (store : Store) (name : String) :
    (store.without name).Within (fun i => ¬ store.ShowsMention name i)
      (Object.Omits name fun i => ¬ store.ShowsMention name i) where
  fresh i hi := by
    rintro ⟨id, closure, hshows, -⟩
    exact not_shows_of_size_le hi hshows
  outer i outer hi houter := by
    rintro ⟨id, closure, hshows, hmentions⟩
    exact hi ⟨id, closure, .outer houter hshows, hmentions⟩
  bound i other value hi hvalue := omits_of_not_showsMention value hi (.bound hvalue)

end Store

/-- Without a name that is mentioned nowhere there is the same result, if there is any. -/
theorem Node.evaluate?_without (hnode : node.mentions name = false)
    (hstore : ¬ store.ShowsMention name scope) (depth : Nat) :
    node.evaluate? depth scope (store.without name) =
      (node.evaluate? depth scope store).map fun result =>
        { result with store := result.store.without name } := by
  have hrun := Node.overlooks_run hstore depth hnode ⟨store, []⟩ (store.within_omits name)
  change Run.EndsWithout _ _ _ _ (node.run depth scope ⟨store.without name, []⟩) at hrun
  rw [evaluate?, evaluate?]
  generalize node.run depth scope ⟨store, []⟩ = result at hrun ⊢
  generalize node.run depth scope ⟨store.without name, []⟩ = result' at hrun ⊢
  cases hrun with
  | ok => rfl
  | error => rfl

theorem agreesBesides_of_map_eq {result? result?' : Option Evaluation}
    (h : (result?'.map fun result => { result with store := result.store.without name }) =
      result?.map fun result => { result with store := result.store.without name }) :
    Option.Rel (Evaluation.AgreesBesides name) result? result?' := by
  match result?, result?' with
  | none, none => exact .none
  | some result, some result' =>
      simp only [Option.map_some, Option.some.injEq, Evaluation.mk.injEq] at h
      exact .some ⟨h.1, Store.agreesBesides_of_without_eq h.2.1, h.2.2⟩

/-- A name may be one that a node does not mention, and neither does any function that can be come
to from the scope other than by way of a binding of the name. If then the name is bound to anything
in any scope, whether it was bound there before or not, the evaluation of the node comes to an end
if and only if it did before, to the same value or error, and all other names are in the end bound
to the same. -/
theorem unmentioned_name_has_no_influence (hnode : node.mentions name = false)
    (hstore : ¬ store.ShowsMention name scope) (i : ScopeId) (value : Object) (depth : Nat) :
    Option.Rel (Evaluation.AgreesBesides name) (node.evaluate? depth scope store)
      (node.evaluate? depth scope (store.set i name value)) := by
  have hset : (store.set i name value).without name = store.without name :=
    store.without_set_self i name value
  have hstore' : ¬ (store.set i name value).ShowsMention name scope := by
    rw [Store.ShowsMention, hset]
    exact hstore
  refine agreesBesides_of_map_eq ?_
  rw [← Node.evaluate?_without hnode hstore, ← Node.evaluate?_without hnode hstore', hset]

/-- The closure of a function literal in the first scope. -/
def Closure.outermost (parameters : List String) (body : String) : Closure :=
  ⟨parameters.map fun name => ⟨.eof 0, name⟩, ⟨.eof 0, (parse body).program.statements⟩, 0⟩

/-- A store with a function that calls itself by the name it is bound to, and one that does not know
of it. -/
def recursiveStore : Store :=
  ⟨#[⟨[("m", .integer (.fresh 0) 40), ("add", .function (.fresh 1) (.outermost ["x"] "x + m")),
    ("f", .function (.fresh 2) (.outermost [] "f()"))], none⟩], 3⟩

/-- Only the binding of the name itself leads to the function that mentions it. -/
theorem recursiveStore_within :
    (recursiveStore.without "f").Within (fun _ => True) (Object.Omits "f" fun _ => True) where
  fresh _ _ := trivial
  outer _ _ _ _ := trivial
  bound i other value _ hvalue := by
    rw [Store.getLocal?_without] at hvalue
    split at hvalue
    · cases hvalue
    · next hother =>
      obtain rfl : i = 0 := Nat.lt_one_iff.mp (Nat.lt_of_not_le fun hle => by
        rw [Store.getLocal?_of_size_le hle] at hvalue
        cases hvalue)
      have hfind : Scope.find? other [("m", .integer (.fresh 0) 40),
          ("add", .function (.fresh 1) (.outermost ["x"] "x + m")),
          ("f", .function (.fresh 2) (.outermost [] "f()"))] = some value := hvalue
      simp only [Scope.find?] at hfind
      split at hfind
      · cases hfind
        trivial
      · split at hfind
        · cases hfind
          exact ⟨by decide +kernel, trivial⟩
        · rw [if_neg (Ne.symm hother)] at hfind
          cases hfind

/-- The other function is called after the first one has been overwritten. -/
theorem overwriting_leaves_the_sum :
    let node := Node.program (parse "let sum = add(2); sum").program
    let changed := recursiveStore.set 0 "f" (.integer (.fresh 3) 7)
    node.mentions "f" = false ∧ ¬ recursiveStore.ShowsMention "f" 0 ∧
      ∃ result result', node.evaluate? 1 0 recursiveStore = some result ∧
        node.evaluate? 1 0 changed = some result' ∧
        result.value.map Object.inspect = some "42" ∧ result.AgreesBesides "f" result' := by
  intro node changed
  have hnode : node.mentions "f" = false := by decide +kernel
  have hstore : ¬ recursiveStore.ShowsMention "f" 0 :=
    Store.not_showsMention recursiveStore_within trivial
  have hrel := unmentioned_name_has_no_influence hnode hstore 0 (.integer (.fresh 3) 7) 1
  have hsome : (node.evaluate? 1 0 recursiveStore).any (fun result =>
      result.value.map Object.inspect == some "42") = true := by decide +kernel
  obtain ⟨result, hresult, hvalue⟩ := (Option.any_eq_true ..).mp hsome
  rw [hresult] at hrel
  cases hresult' : node.evaluate? 1 0 changed with
  | none =>
      rw [hresult'] at hrel
      cases hrel
  | some result' =>
      rw [hresult'] at hrel
      cases hrel with
      | some hagrees =>
          exact ⟨hnode, hstore, result, result', hresult, rfl, eq_of_beq hvalue, hagrees⟩

end ClosureLang
