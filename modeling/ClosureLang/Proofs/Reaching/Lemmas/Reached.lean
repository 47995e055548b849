import ClosureLang.Proofs.Reaching.Lemmas.Renaming

/-!
# Stores that agree

Two stores that agree on all that some objects lead to are a renaming of each other there, and in
all that is still to be made.
-/

namespace ClosureLang

variable {store store' : Store} {roots : List Object}

/-! ## Names behind what there is -/

theorem movedBehind_of_lt {old new i : Nat} (h : i < old) : movedBehind old new i = i :=
  if_pos h

theorem movedBehind_of_ge {old new i : Nat} (h : old ≤ i) :
    movedBehind old new i = new + (i - old) :=
  if_neg (Nat.not_lt_of_le h)

/-- The order stays as it is if the things that keep their names are on both sides. -/
theorem movedBehind_lt_iff {old new i j : Nat} (hi : i < old → i < new) (hj : j < old → j < new) :
    movedBehind old new i < movedBehind old new j ↔ i < j := by
  unfold movedBehind
  split <;> split <;> omega

/-! ## The region -/

/-- All that the roots lead to, and all that is still to be made. -/
def Region.ahead (store store' : Store) (roots : List Object) : Region where
  scope i := store.LeadsToScope roots i ∨ store.scopes.size ≤ i
  serial k := k < store.made → k < store'.made

theorem ObjectId.MadeIn.in_ahead {id : ObjectId} (h : id.MadeIn store') :
    id.In (.ahead store store' roots) := by
  cases id with
  | fresh serial => exact fun _ => h
  | _ => trivial

theorem ObjectId.MadeIn.renamed_eq {id : ObjectId} (h : id.MadeIn store) :
    id.renamed (.between store store') = id := by
  cases id with
  | fresh serial => exact congrArg ObjectId.fresh (movedBehind_of_lt h)
  | _ => rfl

theorem ObjectId.MadeIn.mono {id : ObjectId} (h : id.MadeIn store)
    (hle : store.made ≤ store'.made) : id.MadeIn store' := by
  cases id with
  | fresh serial => exact Nat.lt_of_lt_of_le h hle
  | _ => trivial

namespace Store.Agrees

variable (h : store.Agrees roots store')
include h

theorem refl : store.Agrees roots store where
  lt_size i hi := ⟨(h.lt_size i hi).1, (h.lt_size i hi).1⟩
  bindings _ _ _ := rfl
  outer _ _ := rfl
  made value hv := ⟨(h.made value hv).1, (h.made value hv).1⟩

theorem faithful : (Renaming.between store store').Faithful (.ahead store store' roots) where
  scope_lt := by
    have hkept (i) (hi : (Region.ahead store store' roots).scope i) :
        i < store.scopes.size → i < store'.scopes.size :=
      fun hlt => hi.elim (fun hi => (h.lt_size i hi).2) fun hge => absurd hlt (Nat.not_lt_of_le hge)
    exact fun i j hi hj => movedBehind_lt_iff (hkept i hi) (hkept j hj)
  serial_inj k l hk hl heq := by
    rcases Nat.lt_trichotomy k l with hlt | rfl | hlt
    · exact absurd heq (Nat.ne_of_lt ((movedBehind_lt_iff hk hl).mpr hlt))
    · rfl
    · exact absurd heq (Nat.ne_of_gt ((movedBehind_lt_iff hl hk).mpr hlt))

theorem in_ahead : (value : Object) → store.LeadsTo roots value →
    value.In (.ahead store store' roots)
  | .integer _ _, hv | .boolean _ _, hv | .null _, hv | .error _ _, hv => (h.made _ hv).2.in_ahead
  | .function _ _, hv => ⟨(h.made _ hv).2.in_ahead, .inl (.captured hv)⟩
  | .returned _ inner, hv => ⟨(h.made _ hv).2.in_ahead, in_ahead inner (.inner hv)⟩

theorem scope_eq {i : ScopeId} (hi : store.LeadsToScope roots i) :
    (Renaming.between store store').scope i = i :=
  movedBehind_of_lt (h.lt_size i hi).1

/-- What is reached keeps its name. -/
theorem renamed_eq (value : Object) (hv : store.LeadsTo roots value) :
    value.renamed (.between store store') = value := by
  have hid : value.id.renamed (.between store store') = value.id := (h.made value hv).1.renamed_eq
  match value with
  | .integer _ _ | .boolean _ _ | .null _ | .error _ _ =>
      rw [Object.id] at hid
      rw [Object.renamed, hid]
  | .function _ _ =>
      rw [Object.id] at hid
      rw [Object.renamed, hid, h.scope_eq (.captured hv)]
  | .returned _ inner =>
      rw [Object.id] at hid
      rw [Object.renamed, hid, renamed_eq inner (.inner hv)]

theorem mirrors :
    store.Mirrors (.between store store') (.ahead store store' roots) store' where
  fresh _ hi := .inr hi
  outer i outer hi houter := by
    rcases hi with hi | hi
    · exact .inl (.outer hi houter)
    · rw [outer?_of_size_le hi] at houter
      cases houter
  bound i name value hi hvalue := by
    rcases hi with hi | hi
    · exact h.in_ahead value (.bound hi hvalue)
    · rw [getLocal?_of_size_le hi] at hvalue
      cases hvalue
  size_eq _ hi := movedBehind_of_ge hi
  made_eq _ hk := ⟨fun hlt => absurd hlt (Nat.not_lt_of_le hk), movedBehind_of_ge hk⟩
  outer_eq i hi := by
    rcases hi with hi | hi
    · rw [h.scope_eq hi, h.outer i hi]
      cases houter : store.outer? i with
      | none => rfl
      | some outer => exact congrArg some (h.scope_eq (.outer hi houter)).symm
    · rw [show (Renaming.between store store').scope i = _ from movedBehind_of_ge hi,
        outer?_of_size_le hi, outer?_of_size_le (Nat.le_add_right _ _), Option.map_none]
  bound_eq i name hi := by
    rcases hi with hi | hi
    · rw [h.scope_eq hi, h.bindings i hi]
      cases hvalue : store.getLocal? i name with
      | none => rfl
      | some value => exact congrArg some (h.renamed_eq value (.bound hi hvalue)).symm
    · rw [show (Renaming.between store store').scope i = _ from movedBehind_of_ge hi,
        getLocal?_of_size_le hi, getLocal?_of_size_le (Nat.le_add_right _ _), Option.map_none]

end Store.Agrees

/-- The count of what has been made does not go back. If it did, what is made twice could be told
from what is made in a store that has made one thing more. -/
theorem Store.Mirrors.made_le {r : Region} {after after' : Store}
    (h : after.Mirrors (.between store { store with made := store.made + 1 }) r after') :
    store.made ≤ after.made := by
  apply Nat.le_of_not_lt
  intro hlt
  have hafter : after.made = after'.made := (movedBehind_of_lt hlt).symm.trans h.serial_made
  have hmade : store.made + 1 + (store.made - store.made) =
      after'.made + (store.made - after.made) :=
    (movedBehind_of_ge (Nat.le_refl _)).symm.trans (h.made_eq _ (Nat.le_of_lt hlt)).2
  omega

end ClosureLang
