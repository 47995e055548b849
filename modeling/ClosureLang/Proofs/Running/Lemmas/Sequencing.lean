import ClosureLang.Eval.Tree

/-!
# Statements one after another

Which statements of a list run, and how a list runs that is put together from two.
-/

namespace ClosureLang.Run

variable {enter : Block → ScopeId → Run Object} {scope : ScopeId}

/-- Whether the statements behind one with this value run. -/
def goesOn : Option Object → Bool
  | some (.returned _ _) => false
  | _ => true

theorem goesOn_none : goesOn none = true := rfl

theorem sequence_cons (stmt : Stmt) (stmts : List Stmt) (last : Option Object) :
    sequence enter (stmt :: stmts) last scope = do
      let value ← statement enter stmt scope
      if goesOn value then sequence enter stmts value scope else return value := by
  have hstep : sequence enter (stmt :: stmts) last scope = (statement enter stmt scope >>= fun
      | some (.returned id inner) => return some (.returned id inner)
      | value => sequence enter stmts value scope) := rfl
  rw [hstep]
  refine bind_congr fun value => ?_
  match value with
  | none | some (.returned _ _) | some (.integer _ _) | some (.boolean _ _) | some (.null _)
  | some (.function _ _) | some (.error _ _) => rfl

theorem sequence_append (stmts stmts' : List Stmt) {last : Option Object}
    (hlast : goesOn last = true) :
    sequence enter (stmts ++ stmts') last scope = do
      let value ← sequence enter stmts last scope
      if goesOn value then sequence enter stmts' value scope else return value := by
  induction stmts generalizing last with
  | nil =>
      have hnil : sequence enter [] last scope = pure last := rfl
      rw [hnil, pure_bind, if_pos hlast, List.nil_append]
  | cons stmt stmts ih =>
      rw [List.cons_append, sequence_cons, sequence_cons, bind_assoc]
      refine bind_congr fun value => ?_
      cases hvalue : goesOn value with
      | true => simpa using ih hvalue
      | false => simp [hvalue]

end ClosureLang.Run
