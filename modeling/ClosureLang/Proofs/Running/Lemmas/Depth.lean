import ClosureLang.Proofs.Running.Lemmas.Outcomes

/-!
# The bound on the depth

A run that is not stopped for its depth does the same with any greater depth.
-/

namespace ClosureLang

namespace Run

variable {α β : Type} {enter enter' : Block → ScopeId → Run Object} {scope : ScopeId}

/-- The run `q` does what `p` does, except where `p` is stopped for its depth. -/
def Deepens (p q : Run α) : Prop :=
  ∀ s, (∃ s', p s = .error .tooDeep s') ∨ q s = p s

namespace Deepens

theorem refl (p : Run α) : Deepens p p :=
  fun _ => .inr rfl

theorem bind {p q : Run α} {f g : α → Run β} (hp : Deepens p q) (hf : ∀ a, Deepens (f a) (g a)) :
    Deepens (p >>= f) (q >>= g) := by
  intro s
  rcases hp s with ⟨s', hstop⟩ | hsame
  · exact .inl ⟨s', bind_eq_error hstop⟩
  · simp only [Bind.bind, EStateM.bind, hsame]
    cases p s with
    | ok a s' => exact hf a s'
    | error stop s' => exact .inr rfl

theorem map {p q : Run α} (hp : Deepens p q) (f : α → β) : Deepens (f <$> p) (f <$> q) := by
  rw [map_eq_pure_bind, map_eq_pure_bind]
  exact hp.bind fun a => .refl _

theorem settle {p q : Run (Option Object)} (hp : Deepens p q) :
    Deepens (Run.settle p) (Run.settle q) := by
  intro s
  rw [settle_eq, settle_eq]
  rcases hp s with ⟨s', hstop⟩ | hsame
  · exact .inl ⟨s', by rw [hstop]⟩
  · exact .inr (by rw [hsame])

end Deepens

/-- Bodies that are entered with `enter'` have more depth left than with `enter`. -/
def DeepensBodies (enter enter' : Block → ScopeId → Run Object) : Prop :=
  ∀ body scope, Deepens (enter body scope) (enter' body scope)

theorem deepens_call (henter : DeepensBodies enter enter') (callee : Object)
    (arguments : List Object) :
    Deepens (call enter callee arguments) (call enter' callee arguments) := by
  cases callee with
  | function _ closure =>
      simp only [call]
      split
      · exact .refl _
      · refine (Deepens.refl _).bind fun _ => (Deepens.refl _).bind fun scope => ?_
        exact (Deepens.refl _).bind fun _ => (henter _ _).bind fun result => .refl _
  | _ => exact .refl _

mutual

theorem deepens_expression (henter : DeepensBodies enter enter') (expr : Expr) :
    Deepens (expression enter expr scope) (expression enter' expr scope) := by
  match expr with
  | .identifier _ | .integer _ _ | .boolean _ _ | .function _ _ _ => exact .refl _
  | .prefixed _ _ right =>
      exact (deepens_expression henter right).bind fun _ => (Deepens.refl _).bind fun _ => .refl _
  | .infixed _ left _ right =>
      refine (deepens_expression henter left).bind fun _ => (Deepens.refl _).bind fun _ => ?_
      exact (deepens_expression henter right).bind fun _ => (Deepens.refl _).bind fun _ => .refl _
  | .conditional _ condition consequence alternative =>
      refine (deepens_expression henter condition).bind fun _ => ?_
      refine (Deepens.refl _).bind fun condition => ?_
      split
      · exact deepens_block henter consequence
      · exact deepens_otherwise henter alternative
  | .call _ callee arguments =>
      refine (deepens_expression henter callee).bind fun _ => (Deepens.refl _).bind fun _ => ?_
      exact (deepens_expressions henter arguments).bind fun _ => deepens_call henter _ _

theorem deepens_expressions (henter : DeepensBodies enter enter') (exprs : List Expr) :
    Deepens (expressions enter exprs scope) (expressions enter' exprs scope) := by
  match exprs with
  | [] => exact .refl _
  | expr :: exprs =>
      refine (deepens_expression henter expr).bind fun _ => (Deepens.refl _).bind fun _ => ?_
      exact (deepens_expressions henter exprs).bind fun _ => .refl _

theorem deepens_otherwise (henter : DeepensBodies enter enter') (alternative : Option Block) :
    Deepens (otherwise enter alternative scope) (otherwise enter' alternative scope) := by
  match alternative with
  | none => exact .refl _
  | some alternative => exact deepens_block henter alternative

theorem deepens_statement (henter : DeepensBodies enter enter') (stmt : Stmt) :
    Deepens (statement enter stmt scope) (statement enter' stmt scope) := by
  match stmt with
  | .letStmt _ _ value | .returnStmt _ value | .exprStmt _ value =>
      exact (Deepens.refl _).bind fun _ => (deepens_expression henter value).bind fun _ => .refl _

theorem deepens_sequence (henter : DeepensBodies enter enter') (stmts : List Stmt)
    (last : Option Object) :
    Deepens (sequence enter stmts last scope) (sequence enter' stmts last scope) := by
  match stmts with
  | [] => exact .refl _
  | stmt :: stmts =>
      refine (deepens_statement henter stmt).bind fun value => ?_
      split
      · exact .refl _
      · exact deepens_sequence henter stmts _

theorem deepens_block (henter : DeepensBodies enter enter') (block : Block) :
    Deepens (Run.block enter block scope) (Run.block enter' block scope) := by
  match block with
  | ⟨_, stmts⟩ => exact (deepens_sequence henter stmts none).bind fun _ => .refl _

end

theorem deepens_body {depth depth' : Nat} (h : depth ≤ depth') :
    DeepensBodies (body depth) (body depth') := by
  induction depth generalizing depth' with
  | zero => exact fun _ _ s => .inl ⟨s, rfl⟩
  | succ depth ih =>
      obtain ⟨more, rfl⟩ := Nat.exists_eq_add_of_le h
      rw [Nat.add_right_comm]
      exact fun stmts _ => deepens_block (ih (Nat.le_add_right depth more)) stmts

end Run

namespace Node

theorem deepens_run {depth depth' : Nat} (h : depth ≤ depth') (node : Node) (scope : ScopeId) :
    Run.Deepens (node.run depth scope) (node.run depth' scope) := by
  have henter := Run.deepens_body h
  refine Run.Deepens.settle ?_
  cases node with
  | program whole => exact (Run.deepens_sequence henter whole.statements none).bind fun _ => .refl _
  | statement stmt => exact Run.deepens_statement henter stmt
  | block stmts => exact (Run.deepens_block henter stmts).map some
  | expression expr => exact (Run.deepens_expression henter expr).map some

theorem evaluate?_mono {depth depth' : Nat} (h : depth ≤ depth') {node : Node} {scope : ScopeId}
    {store : Store} {result : Evaluation}
    (hresult : node.evaluate? depth scope store = some result) :
    node.evaluate? depth' scope store = some result := by
  simp only [evaluate?] at hresult ⊢
  rcases deepens_run h node scope ⟨store, []⟩ with ⟨s', hstop⟩ | hsame
  · rw [hstop] at hresult
    cases hresult
  · rwa [hsame]

end Node

end ClosureLang
