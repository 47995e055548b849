import ClosureLang.Proofs.Comparing.Lemmas.Known

/-!
# Comparison by identity is comparison by value
-/

namespace ClosureLang

variable {l r value : Object} {same same' : Prop} {depth : Nat} {scope : ScopeId}
  {programs : List Program} {s : Run.State}

namespace Object

/-! ## The operators -/

theorem Compares.congr (h : l.Compares r same) (hiff : same ↔ same') : l.Compares r same' := by
  obtain ⟨answer, hanswer, happly⟩ := h
  exact ⟨answer, hanswer.trans hiff, happly⟩

theorem Compares.equals_iff (h : l.Compares r same) : l.Equals r ↔ same := by
  obtain ⟨answer, hanswer, happly⟩ := h
  refine Iff.trans ⟨fun hequals => ?_, ?_⟩ hanswer
  · have hsame := (happly ⟨.empty, []⟩).1.symm.trans (hequals ⟨.empty, []⟩)
    cases answer with
    | true => rfl
    | false => cases hsame
  · rintro rfl s
    exact (happly s).1

theorem compares_integers (id id' : ObjectId) (m n : Int64) :
    (Object.integer id m).Compares (.integer id' n) (m = n) := by
  refine ⟨decide (m.toInt = n.toInt), decide_eq_true_iff.trans Int64.toInt_inj, fun s => ⟨rfl, ?_⟩⟩
  rw [← decide_not]
  rfl

/-- All but integers are compared by identity. -/
theorem compares_ids (htype : l.type = r.type) (hne : l.type ≠ .integer) :
    l.Compares r (l.id = r.id) := by
  have hsame : ¬ l.type ≠ r.type := not_not_intro htype
  refine ⟨decide (l.id = r.id), decide_eq_true_iff, fun s => ?_⟩
  rw [← decide_not]
  cases l with
  | integer _ _ => exact absurd rfl hne
  | _ => exact ⟨congrFun (if_neg hsame) s, congrFun (if_neg hsame) s⟩

theorem typeMismatch (h : l.type ≠ r.type) (op : InfixOp) (s : Run.State) :
    Run.applyInfix op l r s = .error (.raised (.typeMismatch l.type op r.type)) s := by
  have hraise : Run.applyInfix op l r = Run.raise (.typeMismatch l.type op r.type) := if_pos h
  rw [hraise]
  rfl

theorem Equals.type_eq (h : l.Equals r) : l.type = r.type := by
  refine Classical.not_not.mp fun hne => ?_
  cases (typeMismatch hne .equal ⟨.empty, []⟩).symm.trans (h ⟨.empty, []⟩)

/-! ## Being the same -/

theorem Same.symm (h : l.Same r) : r.Same l := by
  cases h with
  | integer => exact .integer
  | boolean => exact .boolean
  | null => exact .null
  | itself => exact .itself

theorem Same.trans {m : Object} (h : l.Same m) (h' : m.Same r) : l.Same r := by
  cases h with
  | integer => cases h' with | integer | itself => exact .integer
  | boolean => cases h' with | boolean | itself => exact .boolean
  | null => cases h' with | null | itself => exact .null
  | itself => exact h'

end Object

/-! ## The values of a run -/

namespace Run

/-- What is made on the way of a run is one object if it has one identity. -/
theorem id_eq_iff_same (hl : ∃ step, ProgramsCome depth scope programs s step ∧ step.Makes l)
    (hr : ∃ step, ProgramsCome depth scope programs s step ∧ step.Makes r) :
    l.id = r.id ↔ l.Same r := by
  obtain ⟨A, hA, hmakes⟩ := hl
  obtain ⟨B, hB, hmakes'⟩ := hr
  constructor
  · intro hid
    cases hA.maker_unique hB hmakes hmakes' hid
    cases hmakes.unique hmakes'
    exact .itself
  · intro hsame
    cases hsame with
    | itself => rfl
    | integer | boolean | null => cases hmakes

theorem Knows.compares (hl : Knows depth scope programs s l) (hr : Knows depth scope programs s r)
    (htype : l.type = r.type) : l.Compares r (l.Same r) := by
  cases l with
  | integer id m =>
      cases r with
      | integer id' n =>
          refine (Object.compares_integers id id' m n).congr ⟨fun h => h ▸ .integer, fun h => ?_⟩
          cases h <;> rfl
      | _ => cases htype
  | boolean id b =>
      cases r with
      | boolean id' b' =>
          obtain rfl : id = .boolean b := hl
          obtain rfl : id' = .boolean b' := hr
          refine (Object.compares_ids htype nofun).congr ⟨fun h => ?_, fun h => ?_⟩
          · cases h
            exact .itself
          · cases h <;> rfl
      | _ => cases htype
  | null id =>
      cases r with
      | null id' =>
          have hid : id = id' := Eq.trans hl (Eq.symm hr)
          exact (Object.compares_ids htype nofun).congr ⟨fun _ => .null, fun _ => hid⟩
      | _ => cases htype
  | function _ _ =>
      cases r with
      | function _ _ => exact (Object.compares_ids htype nofun).congr (id_eq_iff_same hl hr)
      | _ => cases htype
  | returned _ _ =>
      cases r with
      | returned _ _ => exact (Object.compares_ids htype nofun).congr (id_eq_iff_same hl hr)
      | _ => cases htype
  | error _ _ => exact hl.elim

theorem Knows.eq_ofBool (h : Knows depth scope programs s value) (htype : value.type = .boolean) :
    ∃ b, value = .ofBool b := by
  cases value with
  | boolean id b => exact ⟨b, congrArg (Object.boolean · b) h⟩
  | _ => cases htype

theorem Knows.eq_sharedNull (h : Knows depth scope programs s value) (htype : value.type = .null) :
    value = .sharedNull := by
  cases value with
  | null id => exact congrArg Object.null h
  | _ => cases htype

theorem Knows.existsUnique_maker (h : Knows depth scope programs s value)
    (htype : value.type = .function) :
    ∃! step, ProgramsCome depth scope programs s step ∧ step.Makes value := by
  cases value with
  | function id closure =>
      obtain ⟨step, hcomes, hmakes⟩ := h
      exact ⟨step, ⟨hcomes, hmakes⟩, fun _ h' => h'.1.maker_unique hcomes h'.2 hmakes rfl⟩
  | _ => cases htype

theorem Knows.equals_iff (hl : Knows depth scope programs s l)
    (hr : Knows depth scope programs s r) : l.Equals r ↔ l.type = r.type ∧ l.Same r :=
  ⟨fun h => ⟨h.type_eq, (hl.compares hr h.type_eq).equals_iff.mp h⟩,
    fun ⟨htype, hsame⟩ => (hl.compares hr htype).equals_iff.mpr hsame⟩

theorem equivalence_equals {V : Object → Prop}
    (hV : ∀ value, V value → Knows depth scope programs s value) :
    Equivalence fun l r : { value // V value } => l.1.Equals r.1 where
  refl value := ((hV _ value.2).equals_iff (hV _ value.2)).mpr ⟨rfl, .itself⟩
  symm {l r} h := by
    obtain ⟨htype, hsame⟩ := ((hV _ l.2).equals_iff (hV _ r.2)).mp h
    exact ((hV _ r.2).equals_iff (hV _ l.2)).mpr ⟨htype.symm, hsame.symm⟩
  trans {l m r} h h' := by
    obtain ⟨htype, hsame⟩ := ((hV _ l.2).equals_iff (hV _ m.2)).mp h
    obtain ⟨htype', hsame'⟩ := ((hV _ m.2).equals_iff (hV _ r.2)).mp h'
    exact ((hV _ l.2).equals_iff (hV _ r.2)).mpr ⟨htype.trans htype', hsame.trans hsame'⟩

end Run

/-- Of the values of any programs run one after another in a new session: truth values and null are
the shared ones; both comparisons of values of one type succeed, and say whether they are the same,
and those of other values fail; equality is an equivalence. Every function, wherever it is read or
handed over or returned, is the one that a certain evaluation of a literal has made, and functions
are equal exactly if one evaluation has made them. -/
theorem comparison_is_value_equality (depth : Nat) (programs : List Program) :
    let s : Run.State := ⟨Session.new.store, []⟩
    let IsValue := Run.HasValue depth Session.new.scope programs s
    let Evaluates := Run.ProgramsCome depth Session.new.scope programs s
    (∀ value, IsValue value →
      (value.type = .boolean → ∃ b, value = .ofBool b) ∧
      (value.type = .null → value = .sharedNull)) ∧
    (∀ l r, IsValue l → IsValue r →
      (l.type = r.type → l.Compares r (l.Same r)) ∧
      (l.type ≠ r.type → ∀ op ∈ [InfixOp.equal, .notEqual], ∀ s,
        Run.applyInfix op l r s = .error (.raised (.typeMismatch l.type op r.type)) s)) ∧
    (Equivalence fun l r : { value // IsValue value } => l.1.Equals r.1) ∧
    (∀ f, IsValue f → f.type = .function → ∃! step, Evaluates step ∧ step.Makes f) ∧
    ∀ A B f g, Evaluates A → Evaluates B → A.Makes f → B.Makes g →
      f.type = .function → g.type = .function → f.Compares g (A = B) := by
  intro s IsValue Evaluates
  have hknows : ∀ value, IsValue value → Run.Knows depth Session.new.scope programs s value :=
    fun _ => Run.HasValue.knows
  refine ⟨fun value hvalue => ?_, fun l r hl hr => ⟨?_, ?_⟩, Run.equivalence_equals hknows,
    fun f hf htype => ?_, fun A B f g hA hB hmakes hmakes' htype htype' => ?_⟩
  · exact ⟨(hknows value hvalue).eq_ofBool, (hknows value hvalue).eq_sharedNull⟩
  · exact fun htype => (hknows l hl).compares (hknows r hr) htype
  · exact fun hne op _ => Object.typeMismatch hne op
  · exact (hknows f hf).existsUnique_maker htype
  · have hsame : f.id = g.id ↔ A = B := by
      refine ⟨hA.maker_unique hB hmakes hmakes', ?_⟩
      rintro rfl
      rw [hmakes.unique hmakes']
    exact (Object.compares_ids (htype.trans htype'.symm) (by simp [htype])).congr hsame

/-- Two functions that one literal makes, and the first of them again, handed over and returned. -/
def twoFunctions : List Program :=
  ["let make = fn() \x7b fn() \x7b 1 \x7d \x7d; let a = make(); let b = make();",
    "let pass = fn(f) \x7b return f; \x7d; let c = pass(a);"].map (parse · |>.program)

/-- Each evaluation of the literal makes a function of its own, and no call makes another. -/
theorem one_literal_makes_two_functions :
    ∃ a b c,
      Run.HasValue 1 Session.new.scope twoFunctions ⟨Session.new.store, []⟩ a ∧
      Run.HasValue 1 Session.new.scope twoFunctions ⟨Session.new.store, []⟩ b ∧
      Run.HasValue 1 Session.new.scope twoFunctions ⟨Session.new.store, []⟩ c ∧
      a.type = .function ∧ b.type = .function ∧ c.type = .function ∧
      a.Compares b (a.Same b) ∧ ¬ a.Same b ∧ a.Compares c (a.Same c) ∧ a.Same c := by
  let store := (Run.ending (Run.programs 1 Session.new.scope twoFunctions
    ⟨Session.new.store, []⟩)).store
  have hbound : ((store.getLocal? 0 "a").bind fun a => (store.getLocal? 0 "b").bind fun b =>
      (store.getLocal? 0 "c").map fun c => (a.type, b.type, c.type, a.id, b.id, c.id)) =
        some (.function, .function, .function, .fresh 1, .fresh 2, .fresh 1) := by decide +kernel
  obtain ⟨a, ha, hbound⟩ := Option.bind_eq_some_iff.mp hbound
  obtain ⟨b, hb, hbound⟩ := Option.bind_eq_some_iff.mp hbound
  obtain ⟨c, hc, hbound⟩ := Option.map_eq_some_iff.mp hbound
  simp only [Prod.mk.injEq] at hbound
  obtain ⟨hta, htb, htc, hia, hib, hic⟩ := hbound
  have hvalues := (comparison_is_value_equality 1 twoFunctions).2.1
  have hb' := (hvalues a b (.bound ha) (.bound hb)).1 (hta.trans htb.symm)
  have hc' := (hvalues a c (.bound ha) (.bound hc)).1 (hta.trans htc.symm)
  have hids (other : Object) (htype : a.type = other.type) : a.Equals other ↔ a.id = other.id :=
    (Object.compares_ids htype (by rw [hta]; nofun)).equals_iff
  refine ⟨a, b, c, .bound ha, .bound hb, .bound hc, hta, htb, htc, hb', fun hsame => ?_, hc', ?_⟩
  · have hid := (hids b (hta.trans htb.symm)).mp (hb'.equals_iff.mpr hsame)
    rw [hia, hib] at hid
    cases hid
  · exact hc'.equals_iff.mp ((hids c (hta.trans htc.symm)).mpr (hia.trans hic.symm))

end ClosureLang
