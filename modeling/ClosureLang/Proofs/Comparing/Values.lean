import ClosureLang.Proofs.Running.Theorems
import ClosureLang.Proofs.Stepping.Grounded

/-!
# The values of a run of programs

Programs run one after another in one scope. Their values are the objects that their steps come to
and that they bind, use and answer with. Two values are compared by identity unless both are
integers.
-/

namespace ClosureLang

/-- The step with which the evaluation of a program begins. -/
def Program.start (depth : Nat) (program : Program) (scope : ScopeId) (s : Run.State) : Step :=
  ⟨depth, .statements program.statements none, scope, s⟩

/-- The step comes to a value, which it hands on to the step that has begun it. -/
inductive Step.Gives : Step → Object → Prop
  | expression {depth expr scope s value s'} :
      Run.expression (Run.body depth) expr scope s = .ok value s' →
      Gives ⟨depth, .expression expr, scope, s⟩ value
  | call {depth callee arguments scope s value s'} :
      Run.call (Run.body depth) callee arguments s = .ok value s' →
      Gives ⟨depth, .call callee arguments, scope, s⟩ value
  | statement {depth stmt scope s value s'} :
      Run.statement (Run.body depth) stmt scope s = .ok (some value) s' →
      Gives ⟨depth, .statement stmt, scope, s⟩ value
  | statements {depth stmts last scope s value s'} :
      Run.sequence (Run.body depth) stmts last scope s = .ok (some value) s' →
      Gives ⟨depth, .statements stmts last, scope, s⟩ value
  | block {depth stmts scope s value s'} :
      Run.block (Run.body depth) stmts scope s = .ok value s' →
      Gives ⟨depth, .block stmts, scope, s⟩ value

namespace Run

/-- Each program begins with what the one before it has left. -/
def programs (depth : Nat) (scope : ScopeId) : List Program → Run (List (Option Object))
  | [] => return []
  | first :: rest => do
    let answer ← (Node.program first).run depth scope
    let answers ← programs depth scope rest
    return answer :: answers

/-- The programs come to a step, which may be one of any of them. -/
inductive ProgramsCome (depth : Nat) (scope : ScopeId) : List Program → State → Step → Prop
  | first {first : Program} {rest s step} :
      (Program.start depth first scope s).Comes step →
      ProgramsCome depth scope (first :: rest) s step
  | rest {first rest s answer s' step} :
      (Node.program first).run depth scope s = .ok answer s' →
      ProgramsCome depth scope rest s' step →
      ProgramsCome depth scope (first :: rest) s step

/-- The values of programs: what their steps give, what has been used in any way or bound, what
answers a program without being an error, and what is wrapped in one of these. -/
inductive HasValue (depth : Nat) (scope : ScopeId) (list : List Program) (s : State) :
    Object → Prop
  | given {step value} :
      ProgramsCome depth scope list s step → step.Gives value → HasValue depth scope list s value
  | used {how value} :
      .use how value ∈ (ending (programs depth scope list s)).journal →
      HasValue depth scope list s value
  | bound {i name value} :
      (ending (programs depth scope list s)).store.getLocal? i name = some value →
      HasValue depth scope list s value
  | answered {answers s' value} :
      programs depth scope list s = .ok answers s' → some value ∈ answers →
      value.isError = false → HasValue depth scope list s value
  | inner {id inner} :
      HasValue depth scope list s (.returned id inner) → HasValue depth scope list s inner

end Run

namespace Object

/-- Integers and truth values are the same by value, null is always the same, and anything else is
the same only as itself. -/
inductive Same : Object → Object → Prop
  | integer {id id' value} : Same (.integer id value) (.integer id' value)
  | boolean {id id' value} : Same (.boolean id value) (.boolean id' value)
  | null {id id'} : Same (.null id) (.null id')
  | itself {object} : Same object object

/-- Both comparisons of two objects succeed in every state, and they say whether `same` holds. -/
def Compares (l r : Object) (same : Prop) : Prop :=
  ∃ answer : Bool, (answer = true ↔ same) ∧ ∀ s,
    Run.applyInfix .equal l r s = .ok (.ofBool answer) s ∧
      Run.applyInfix .notEqual l r s = .ok (.ofBool !answer) s

/-- The language's equality. -/
def Equals (l r : Object) : Prop :=
  ∀ s, Run.applyInfix .equal l r s = .ok (.ofBool true) s

end Object

end ClosureLang
