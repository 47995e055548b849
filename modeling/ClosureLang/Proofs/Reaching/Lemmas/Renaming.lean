import ClosureLang.Proofs.Reaching.Reachable
import ClosureLang.Proofs.Running.Lemmas.Invariant

/-!
# Stores under other names

Two stores side by side, of which the second one is the first one renamed, as far as a region of it
is concerned. Each operation on the stores keeps this.
-/

namespace ClosureLang

/-- A part of what there is in a run: some of the scopes and some of the objects. -/
structure Region where
  scope : ScopeId → Prop
  serial : Nat → Prop

variable {ρ : Renaming} {r : Region}

def ObjectId.In (r : Region) : ObjectId → Prop
  | fresh serial => r.serial serial
  | _ => True

/-- The object and what it wraps are of the region, and so is the scope that it has captured. -/
def Object.In (r : Region) : Object → Prop
  | integer id _ | boolean id _ | null id | error id _ => id.In r
  | function id closure => id.In r ∧ r.scope closure.scope
  | returned id inner => id.In r ∧ inner.In r

/-- The region keeps its order and its differences under the names. -/
structure Renaming.Faithful (ρ : Renaming) (r : Region) : Prop where
  scope_lt : ∀ i j, r.scope i → r.scope j → (ρ.scope i < ρ.scope j ↔ i < j)
  serial_inj : ∀ k l, r.serial k → r.serial l → ρ.serial k = ρ.serial l → k = l

namespace Renaming.Faithful

theorem scope_inj (h : ρ.Faithful r) {i j : ScopeId} (hi : r.scope i) (hj : r.scope j) :
    ρ.scope i = ρ.scope j ↔ i = j := by
  refine ⟨fun heq => ?_, congrArg _⟩
  rcases Nat.lt_trichotomy i j with hlt | rfl | hlt
  · exact absurd heq (Nat.ne_of_lt ((h.scope_lt i j hi hj).mpr hlt))
  · rfl
  · exact absurd heq (Nat.ne_of_gt ((h.scope_lt j i hj hi).mpr hlt))

theorem id_inj (h : ρ.Faithful r) {id id' : ObjectId} (hid : id.In r) (hid' : id'.In r) :
    id.renamed ρ = id'.renamed ρ ↔ id = id' := by
  refine ⟨fun heq => ?_, congrArg _⟩
  cases id <;> cases id' <;> simp only [ObjectId.renamed, reduceCtorEq, ObjectId.fresh.injEq] at heq
  case null.null => rfl
  case boolean.boolean => exact heq
  case fresh.fresh => exact congrArg _ (h.serial_inj _ _ hid hid' heq)

end Renaming.Faithful

/-! ## Objects -/

namespace Object

@[simp] theorem type_renamed (object : Object) : (object.renamed ρ).type = object.type := by
  cases object <;> rfl

@[simp] theorem id_renamed (object : Object) : (object.renamed ρ).id = object.id.renamed ρ := by
  cases object <;> rfl

@[simp] theorem isTruthy_renamed (object : Object) :
    (object.renamed ρ).isTruthy = object.isTruthy := by
  cases object <;> rfl

@[simp] theorem unwrapped_renamed (object : Object) :
    (object.renamed ρ).unwrapped = object.unwrapped.renamed ρ := by
  cases object <;> rfl

theorem renamed_ofBool (value : Bool) : (ofBool value).renamed ρ = ofBool value := rfl

theorem renamed_sharedNull : sharedNull.renamed ρ = sharedNull := rfl

theorem in_ofBool (value : Bool) : (ofBool value).In r := trivial

theorem in_sharedNull : sharedNull.In r := trivial

theorem In.id {object : Object} (h : object.In r) : object.id.In r := by
  cases object with
  | function _ _ | returned _ _ => exact h.1
  | _ => exact h

theorem In.unwrapped {object : Object} (h : object.In r) : object.unwrapped.In r := by
  cases object with
  | returned _ _ => exact h.2
  | _ => exact h

end Object

/-! ## Stores -/

/-- What is of the region in the first store is of it as a whole, and it is there in the second
store under its other names. What is still to come is of the region as well, and comes to both
stores at the same time. -/
structure Store.Mirrors (ρ : Renaming) (r : Region) (store store' : Store) : Prop
    extends store.Within r.scope (Object.In r) where
  size_eq : ∀ i, store.scopes.size ≤ i →
    ρ.scope i = store'.scopes.size + (i - store.scopes.size)
  made_eq : ∀ k, store.made ≤ k → r.serial k ∧ ρ.serial k = store'.made + (k - store.made)
  outer_eq : ∀ i, r.scope i → store'.outer? (ρ.scope i) = (store.outer? i).map ρ.scope
  bound_eq : ∀ i name, r.scope i →
    store'.getLocal? (ρ.scope i) name = (store.getLocal? i name).map (Object.renamed ρ)

namespace Store.Mirrors

variable {store store' : Store} {scope : ScopeId} {name : String} {value : Object}

theorem scope_size (h : store.Mirrors ρ r store') :
    ρ.scope store.scopes.size = store'.scopes.size := by
  simpa using h.size_eq _ (Nat.le_refl _)

theorem serial_made (h : store.Mirrors ρ r store') : ρ.serial store.made = store'.made := by
  simpa using (h.made_eq _ (Nat.le_refl _)).2

theorem lt_size_iff (hρ : ρ.Faithful r) (h : store.Mirrors ρ r store') {i : ScopeId}
    (hi : r.scope i) : ρ.scope i < store'.scopes.size ↔ i < store.scopes.size := by
  rw [← h.scope_size]
  exact hρ.scope_lt _ _ hi (h.fresh _ (Nat.le_refl _))

/-- A name is found in the same scope of both stores. -/
theorem get?_eq (hρ : ρ.Faithful r) (h : store.Mirrors ρ r store') {scope : ScopeId}
    (hscope : r.scope scope) (name : String) :
    store'.get? (ρ.scope scope) name = (store.get? scope name).map (Object.renamed ρ) := by
  rw [Store.get?, Store.get?, h.bound_eq scope name hscope, h.outer_eq scope hscope]
  cases store.getLocal? scope name with
  | some value => rfl
  | none =>
      cases houter : store.outer? scope with
      | none => rfl
      | some outer =>
          have hin : r.scope outer := h.outer scope outer hscope houter
          simp only [Option.map_none, Option.map_some, hρ.scope_lt outer scope hin hscope]
          split
          · exact get?_eq hρ h hin name
          · rfl
termination_by scope

theorem set (hρ : ρ.Faithful r) (h : store.Mirrors ρ r store') (hscope : r.scope scope)
    (hvalue : value.In r) :
    (store.set scope name value).Mirrors ρ r
      (store'.set (ρ.scope scope) name (value.renamed ρ)) where
  toWithin := h.toWithin.set hvalue
  size_eq := by simpa using h.size_eq
  made_eq := h.made_eq
  outer_eq := by simpa using h.outer_eq
  bound_eq i other hi := by
    rw [getLocal?_set, getLocal?_set, h.bound_eq i other hi]
    simp only [hρ.scope_inj hscope hi, h.lt_size_iff hρ hi]
    split <;> rfl

theorem newScope (hρ : ρ.Faithful r) (h : store.Mirrors ρ r store') {outer : ScopeId}
    (houter : r.scope outer) :
    (store.newScope (some outer)).2.Mirrors ρ r (store'.newScope (some (ρ.scope outer))).2 where
  toWithin := h.toWithin.newScope houter
  size_eq i hi := by
    rw [size_newScope] at hi
    rw [size_newScope, size_newScope, h.size_eq i (Nat.le_of_succ_le hi), Nat.add_assoc,
      Nat.sub_add_eq, Nat.add_sub_of_le (Nat.le_sub_of_add_le' hi)]
  made_eq := h.made_eq
  outer_eq i hi := by
    have hnew : ρ.scope i = store'.scopes.size ↔ i = store.scopes.size := by
      rw [← h.scope_size]
      exact hρ.scope_inj hi (h.fresh _ (Nat.le_refl _))
    rw [outer?_newScope, outer?_newScope, h.outer_eq i hi]
    simp only [hnew]
    split <;> rfl
  bound_eq i name hi := by
    rw [getLocal?_newScope, getLocal?_newScope, h.bound_eq i name hi]

theorem newId (h : store.Mirrors ρ r store') : store.newId.2.Mirrors ρ r store'.newId.2 where
  toWithin := h.toWithin.newId
  size_eq := h.size_eq
  made_eq k hk := by
    obtain ⟨hin, heq⟩ := h.made_eq k (Nat.le_of_succ_le hk)
    refine ⟨hin, heq.trans ?_⟩
    simp only [Store.newId] at hk ⊢
    omega
  outer_eq := h.outer_eq
  bound_eq := h.bound_eq

end Store.Mirrors

/-! ## What is reached -/

/-- The roots are of the region, and nothing leads out of it. -/
structure Region.Encloses (r : Region) (store : Store) (roots : List Object) : Prop where
  outer : ∀ i outer, r.scope i → store.outer? i = some outer → r.scope outer
  bound : ∀ i name value, r.scope i → store.getLocal? i name = some value → value.In r
  roots : ∀ root ∈ roots, root.In r

section

variable {store store' : Store} {roots : List Object}

mutual

theorem Region.Encloses.object (h : r.Encloses store roots) {value : Object}
    (hvalue : store.LeadsTo roots value) : value.In r := by
  match hvalue with
  | .root hmem => exact h.roots _ hmem
  | .inner hreturned => exact (h.object hreturned).2
  | .bound hscope hvalue => exact h.bound _ _ _ (h.scope hscope) hvalue

theorem Region.Encloses.scope (h : r.Encloses store roots) {scope : ScopeId}
    (hscope : store.LeadsToScope roots scope) : r.scope scope := by
  match hscope with
  | .captured hfunction => exact (h.object hfunction).2
  | .outer hscope houter => exact h.outer _ _ (h.scope hscope) houter

end

theorem Store.Mirrors.corresponds (hρ : ρ.Faithful r) (h : store.Mirrors ρ r store')
    (hroots : ∀ root ∈ roots, root.In r) : store.Corresponds ρ roots store' := by
  have hr : r.Encloses store roots := ⟨h.outer, h.bound, hroots⟩
  constructor
  · exact fun i hi name => h.bound_eq i name (hr.scope hi)
  · exact fun i hi => h.outer_eq i (hr.scope hi)
  · exact fun i j hi hj => (hρ.scope_inj (hr.scope hi) (hr.scope hj)).mp
  · exact fun value value' hv hv' => (hρ.id_inj (hr.object hv).id (hr.object hv').id).mp

end

end ClosureLang
