import ClosureLang.Proofs.Reaching.Lemmas.Renaming
import ClosureLang.Proofs.Running.Lemmas.Operators

/-!
# Running under other names

Evaluation does not look at the names of scopes, and at those of objects only to tell them apart.
From stores that mirror each other in a region it does the same, and what it makes mirrors as well.
-/

namespace ClosureLang.Run

variable {ρ : Renaming} {r : Region} {α α' β β' : Type} {move : α → α'} {move' : β → β'}
  {Q : α → Prop} {Q' : β → Prop} {enter : Block → ScopeId → Run Object} {scope : ScopeId}

/-- Two runs end alike in stores that mirror each other. `Q` holds of the result of the first, and
`move` says what it is for the second. -/
inductive EndsMirrored (ρ : Renaming) (r : Region) (move : α → α') (Q : α → Prop) :
    EStateM.Result Stop State α → EStateM.Result Stop State α' → Prop
  | ok {a s t} :
      s.store.Mirrors ρ r t.store → Q a → EndsMirrored ρ r move Q (.ok a s) (.ok (move a) t)
  | error {stop s t} :
      s.store.Mirrors ρ r t.store → EndsMirrored ρ r move Q (.error stop s) (.error stop t)

/-- The runs do the same on stores that mirror each other. The journals may be any. -/
def Mirrored (ρ : Renaming) (r : Region) (move : α → α') (Q : α → Prop) (p : Run α) (q : Run α') :
    Prop :=
  ∀ s t, s.store.Mirrors ρ r t.store → EndsMirrored ρ r move Q (p s) (q t)

/-- The runs come to an object of the region under its two names. -/
abbrev MirrorsObject (ρ : Renaming) (r : Region) (p q : Run Object) : Prop :=
  Mirrored ρ r (Object.renamed ρ) (Object.In r) p q

namespace Mirrored

theorem pure {a : α} {b : α'} (h : move a = b) (hq : Q a) :
    Mirrored ρ r move Q (Pure.pure a : Run α) (Pure.pure b) :=
  fun _ _ hs => h ▸ .ok hs hq

theorem bind {p : Run α} {q : Run α'} {f : α → Run β} {g : α' → Run β'}
    (hp : Mirrored ρ r move Q p q) (hf : ∀ a, Q a → Mirrored ρ r move' Q' (f a) (g (move a))) :
    Mirrored ρ r move' Q' (p >>= f) (q >>= g) := by
  intro s t hs
  have h := hp s t hs
  simp only [Bind.bind, EStateM.bind]
  generalize p s = result at h ⊢
  generalize q t = result' at h ⊢
  cases h with
  | ok hs hq => exact hf _ hq _ _ hs
  | error hs => exact .error hs

theorem raise (error : EvalError) :
    Mirrored ρ r move Q (Run.raise error : Run α) (Run.raise error) :=
  fun _ _ hs => .error hs

theorem note (event event' : Event) :
    Mirrored ρ r id (fun _ => True) (Run.note event) (Run.note event') :=
  fun _ _ hs => .ok hs trivial

theorem use (how : Use) {value : Object} (h : value.In r) :
    MirrorsObject ρ r (Run.use how value) (Run.use how (value.renamed ρ)) :=
  fun _ _ hs => .ok hs h

theorem newId : Mirrored ρ r (ObjectId.renamed ρ) (ObjectId.In r) Run.newId Run.newId := by
  intro s t hs
  have hid : ObjectId.renamed ρ s.store.newId.1 = t.store.newId.1 :=
    congrArg ObjectId.fresh hs.serial_made
  have ht : Run.newId t =
      .ok (ObjectId.renamed ρ s.store.newId.1) { t with store := t.store.newId.2 } :=
    congrArg (EStateM.Result.ok · _) hid.symm
  rw [ht]
  exact .ok hs.newId (hs.made_eq _ (Nat.le_refl _)).1

theorem newScope (hρ : ρ.Faithful r) {outer : ScopeId} (h : r.scope outer) :
    Mirrored ρ r ρ.scope r.scope (Run.newScope (some outer))
      (Run.newScope (some (ρ.scope outer))) := by
  intro s t hs
  have ht : Run.newScope (some (ρ.scope outer)) t = .ok (ρ.scope s.store.scopes.size)
      { t with store := (t.store.newScope (some (ρ.scope outer))).2 } :=
    congrArg (EStateM.Result.ok · _) hs.scope_size.symm
  rw [ht]
  exact .ok (hs.newScope hρ h) (hs.fresh _ (Nat.le_refl _))

theorem newInteger (value : Int64) :
    MirrorsObject ρ r (Run.newInteger value) (Run.newInteger value) :=
  newId.bind fun _ hid => pure rfl hid

theorem newFunction {closure : Closure} (h : r.scope closure.scope) :
    MirrorsObject ρ r (Run.newFunction closure)
      (Run.newFunction { closure with scope := ρ.scope closure.scope }) :=
  newId.bind fun _ hid => pure rfl ⟨hid, h⟩

theorem newReturned {inner : Object} (h : inner.In r) :
    MirrorsObject ρ r (Run.newReturned inner) (Run.newReturned (inner.renamed ρ)) :=
  newId.bind fun _ hid => pure rfl ⟨hid, h⟩

theorem binding (hρ : ρ.Faithful r) (hscope : r.scope scope) (name : String) {value : Object}
    (h : value.In r) :
    Mirrored ρ r id (fun _ => True) (Run.bind scope name value)
      (Run.bind (ρ.scope scope) name (value.renamed ρ)) :=
  fun _ _ hs => .ok (hs.set hρ hscope h) trivial

theorem lookup (hρ : ρ.Faithful r) (hscope : r.scope scope) (name : String) :
    MirrorsObject ρ r (Run.lookup scope name) (Run.lookup (ρ.scope scope) name) := by
  intro s t hs
  rw [lookup_eq, lookup_eq, hs.get?_eq hρ hscope]
  cases hvalue : s.store.get? scope name with
  | some value => exact .ok hs (hs.toWithin.get? hscope hvalue)
  | none => exact .error hs

theorem operation {run : Run Object} (h : IsOperation run) : MirrorsObject ρ r run run := by
  cases h with
  | boolean value => exact pure (Object.renamed_ofBool value) (Object.in_ofBool value)
  | integer value => exact newInteger value
  | raise error => exact raise error

theorem bindParameters (hρ : ρ.Faithful r) (hscope : r.scope scope) :
    (parameters : List Identifier) → (arguments : List Object) →
    (∀ argument ∈ arguments, argument.In r) →
    Mirrored ρ r id (fun _ => True) (Run.bindParameters scope parameters arguments)
      (Run.bindParameters (ρ.scope scope) parameters (arguments.map (Object.renamed ρ)))
  | [], [], _ | [], _ :: _, _ | _ :: _, [], _ => pure rfl trivial
  | _ :: parameters, _ :: arguments, h =>
      (binding hρ hscope _ (h _ List.mem_cons_self)).bind fun _ _ =>
        bindParameters hρ hscope parameters arguments fun a ha => h a (List.mem_cons_of_mem _ ha)

end Mirrored

theorem applyPrefix_renamed (op : PrefixOp) (right : Object) :
    applyPrefix op (right.renamed ρ) = applyPrefix op right := by
  cases op <;> cases right <;> rfl

/-- Objects are compared by their identities, which other names keep apart. -/
theorem applyInfix_renamed (hρ : ρ.Faithful r) (op : InfixOp) {left right : Object}
    (hleft : left.In r) (hright : right.In r) :
    applyInfix op (left.renamed ρ) (right.renamed ρ) = applyInfix op left right := by
  have hid : (left.renamed ρ).id = (right.renamed ρ).id ↔ left.id = right.id := by
    rw [Object.id_renamed, Object.id_renamed, hρ.id_inj hleft.id hright.id]
  simp only [applyInfix, ne_eq, hid, Object.type_renamed]
  cases left <;> cases right <;> rfl

/-- Bodies are entered alike under the two names of a scope. -/
def MirrorsBodies (ρ : Renaming) (r : Region) (enter : Block → ScopeId → Run Object) : Prop :=
  ∀ body scope, r.scope scope → MirrorsObject ρ r (enter body scope) (enter body (ρ.scope scope))

theorem mirrors_call (hρ : ρ.Faithful r) (henter : MirrorsBodies ρ r enter) {callee : Object}
    {arguments : List Object} (hcallee : callee.In r)
    (harguments : ∀ argument ∈ arguments, argument.In r) :
    MirrorsObject ρ r (call enter callee arguments)
      (call enter (callee.renamed ρ) (arguments.map (Object.renamed ρ))) := by
  cases callee with
  | function id closure =>
      simp only [call, Object.renamed, List.length_map]
      split
      · exact .raise _
      · refine (Mirrored.note _ _).bind fun _ _ => ?_
        refine (Mirrored.newScope hρ hcallee.2).bind fun scope hscope => ?_
        refine (Mirrored.bindParameters hρ hscope _ _ harguments).bind fun _ _ => ?_
        refine (henter _ _ hscope).bind fun result hresult => ?_
        exact .pure (Object.unwrapped_renamed result).symm hresult.unwrapped
  | _ => exact .raise _

/-- Evaluation in a scope of the region. -/
structure Mirroring (ρ : Renaming) (r : Region) (enter : Block → ScopeId → Run Object)
    (scope : ScopeId) : Prop where
  faithful : ρ.Faithful r
  enters : MirrorsBodies ρ r enter
  scope : r.scope scope

mutual

theorem mirrors_expression (h : Mirroring ρ r enter scope) : (expr : Expr) →
    MirrorsObject ρ r (expression enter expr scope) (expression enter expr (ρ.scope scope))
  | .identifier name => .lookup h.faithful h.scope name.name
  | .integer _ value => .newInteger value
  | .boolean _ value => .pure (Object.renamed_ofBool value) (Object.in_ofBool value)
  | .prefixed _ op right =>
      (mirrors_expression h right).bind fun _ hr => (Mirrored.use _ hr).bind fun right _ => by
        rw [applyPrefix_renamed]
        exact .operation (isOperation_applyPrefix op right)
  | .infixed _ left op right =>
      (mirrors_expression h left).bind fun _ hl => (Mirrored.use _ hl).bind fun left hl =>
        (mirrors_expression h right).bind fun _ hr => (Mirrored.use _ hr).bind fun right hr => by
          rw [applyInfix_renamed h.faithful op hl hr]
          exact .operation (isOperation_applyInfix op left right)
  | .conditional _ condition consequence alternative =>
      (mirrors_expression h condition).bind fun _ hc => (Mirrored.use _ hc).bind fun _ _ => by
        rw [Object.isTruthy_renamed]
        split
        · exact mirrors_block h consequence
        · exact mirrors_otherwise h alternative
  | .function _ parameters body => .newFunction h.scope
  | .call _ callee arguments =>
      (mirrors_expression h callee).bind fun _ hf => (Mirrored.use _ hf).bind fun _ hf =>
        (mirrors_expressions h arguments).bind fun _ hvalues =>
          mirrors_call h.faithful h.enters hf hvalues

theorem mirrors_expressions (h : Mirroring ρ r enter scope) : (exprs : List Expr) →
    Mirrored ρ r (List.map (Object.renamed ρ)) (fun values => ∀ value ∈ values, value.In r)
      (expressions enter exprs scope) (expressions enter exprs (ρ.scope scope))
  | [] => .pure rfl (by simp)
  | expr :: exprs =>
      (mirrors_expression h expr).bind fun _ hv => (Mirrored.use _ hv).bind fun _ hv =>
        (mirrors_expressions h exprs).bind fun _ hvalues =>
          .pure rfl (List.forall_mem_cons.mpr ⟨hv, hvalues⟩)

theorem mirrors_otherwise (h : Mirroring ρ r enter scope) : (alternative : Option Block) →
    MirrorsObject ρ r (otherwise enter alternative scope)
      (otherwise enter alternative (ρ.scope scope))
  | none => .pure Object.renamed_sharedNull Object.in_sharedNull
  | some alternative => mirrors_block h alternative

theorem mirrors_statement (h : Mirroring ρ r enter scope) : (stmt : Stmt) →
    Mirrored ρ r (Option.map (Object.renamed ρ)) (fun value => ∀ object ∈ value, object.In r)
      (statement enter stmt scope) (statement enter stmt (ρ.scope scope))
  | .letStmt _ _ value =>
      (Mirrored.note _ _).bind fun _ _ => (mirrors_expression h value).bind fun _ hv =>
        (Mirrored.binding h.faithful h.scope _ hv).bind fun _ _ => .pure rfl (by simp)
  | .returnStmt _ value =>
      (Mirrored.note _ _).bind fun _ _ => (mirrors_expression h value).bind fun _ hv =>
        (Mirrored.use _ hv).bind fun _ hv => (Mirrored.newReturned hv).bind fun _ hr =>
          .pure rfl (by simpa using hr)
  | .exprStmt _ expr =>
      (Mirrored.note _ _).bind fun _ _ => (mirrors_expression h expr).bind fun _ hv =>
        .pure rfl (by simpa using hv)

theorem mirrors_sequence (h : Mirroring ρ r enter scope) : (stmts : List Stmt) →
    (last : Option Object) → (∀ object ∈ last, object.In r) →
    Mirrored ρ r (Option.map (Object.renamed ρ)) (fun value => ∀ object ∈ value, object.In r)
      (sequence enter stmts last scope)
      (sequence enter stmts (last.map (Object.renamed ρ)) (ρ.scope scope))
  | [], _, hlast => .pure rfl hlast
  | stmt :: stmts, _, _ => (mirrors_statement h stmt).bind fun value hv => by
      match value with
      | some (.returned id inner) => exact .pure rfl hv
      | none => exact mirrors_sequence h stmts none hv
      | some (.integer _ _) | some (.boolean _ _) | some (.null _) | some (.function _ _)
      | some (.error _ _) => exact mirrors_sequence h stmts (some _) hv

theorem mirrors_block (h : Mirroring ρ r enter scope) : (stmts : Block) →
    MirrorsObject ρ r (block enter stmts scope) (block enter stmts (ρ.scope scope))
  | ⟨_, stmts⟩ => (mirrors_sequence h stmts none (by simp)).bind fun value hv => by
      cases value with
      | some value => exact .pure rfl (hv value rfl)
      | none => exact .pure Object.renamed_sharedNull Object.in_sharedNull

end

theorem mirrors_body (hρ : ρ.Faithful r) : (depth : Nat) → MirrorsBodies ρ r (body depth)
  | 0 => fun _ _ _ _ _ hs => .error hs
  | depth + 1 => fun stmts _ hscope => mirrors_block ⟨hρ, mirrors_body hρ depth, hscope⟩ stmts

end ClosureLang.Run
