import ClosureLang.Proofs.Placing.Lemmas.Running
import ClosureLang.Proofs.Placing.Lemmas.Sources
import ClosureLang.Session

/-!
# The layout of a source is free

Two sources with the same words have the same syntax errors and do the same, wherever their words
stand.
-/

namespace ClosureLang

/-! ## Evaluating -/

theorem Object.Alike.of_unplaced {object object' : Object}
    (h : object.unplaced = object'.unplaced) : object.Alike object' where
  type := object.type_placed.symm.trans ((congrArg Object.type h).trans object'.type_placed)
  inspect :=
    object.inspect_placed.symm.trans ((congrArg Object.inspect h).trans object'.inspect_placed)
  errorMessage? := object.errorMessage?_placed.symm.trans
    ((congrArg Object.errorMessage? h).trans object'.errorMessage?_placed)

theorem Object.Alike.of_map_unplaced {value value' : Option Object}
    (h : value.map Object.unplaced = value'.map Object.unplaced) :
    Option.Rel Object.Alike value value' := by
  cases value <;> cases value' <;> simp only [Option.map_some, Option.map_none, reduceCtorEq] at h
  case none.none => exact .none
  case some.some => exact .some (.of_unplaced (Option.some.inj h))

theorem Evaluation.Alike.of_unplaced {result result' : Evaluation}
    (hvalue : result.value.map Object.unplaced = result'.value.map Object.unplaced)
    (hstore : result.store.unplaced = result'.store.unplaced) : result.Alike result' where
  value := Object.Alike.of_map_unplaced hvalue
  bindings scope name := by
    refine Object.Alike.of_map_unplaced ?_
    rw [Object.unplaced, ← Store.getLocal?_placed, ← Store.getLocal?_placed, ← Store.unplaced,
      hstore]
  outer? scope := (result.store.outer?_placed scope).symm.trans
    ((congrArg (Store.outer? · scope) hstore).trans (result'.store.outer?_placed scope))

/-- A program with its tokens in other places comes to the same, but for the places. -/
theorem evaluate?_placed (place : Token → Span) (whole : Program) (depth : Nat) (scope : ScopeId)
    (store : Store) :
    ((Node.program (whole.placed place)).evaluate? depth scope (store.placed place)).map
        (fun result => (result.value, result.store)) =
      ((Node.program whole).evaluate? depth scope store).map
        (fun result => (result.value.map (Object.placed place), result.store.placed place)) := by
  have hrun := (Run.moves_program (Run.moves_body depth) whole scope).settle
    ⟨store, []⟩ ⟨store.placed place, []⟩ rfl
  simp only [Node.evaluate?, Node.run]
  generalize Run.settle _ ⟨store, []⟩ = r at hrun ⊢
  generalize Run.settle _ ⟨store.placed place, []⟩ = r' at hrun ⊢
  cases hrun with
  | ok hstore => simp only [Option.map_some, hstore]
  | error _ => rfl

/-- Programs that differ only in the places of their tokens come to results that are alike. -/
theorem evaluate?_alike {whole whole' : Program} (h : whole.unplaced = whole'.unplaced)
    (depth : Nat) (scope : ScopeId) (store : Store) :
    Option.Rel Evaluation.Alike ((Node.program whole).evaluate? depth scope store)
      ((Node.program whole').evaluate? depth scope store) := by
  have hends := evaluate?_placed nowhere whole depth scope store
  rw [← Program.unplaced, h, Program.unplaced, evaluate?_placed] at hends
  generalize (Node.program whole).evaluate? depth scope store = result at hends ⊢
  generalize (Node.program whole').evaluate? depth scope store = result' at hends ⊢
  cases result <;> cases result' <;>
    simp only [Option.map_some, Option.map_none, reduceCtorEq, Option.some.injEq, Prod.mk.injEq]
      at hends
  case none.none => exact .none
  case some.some => exact .some (.of_unplaced hends.1.symm hends.2.symm)

/-- Sources with the same words, whatever the blanks between them, have programs that differ only in
the places of their tokens, and the same syntax errors at the same words. Evaluated in the same
scope, their programs come to results that a reader cannot tell apart. -/
theorem layout_is_free {a b : String} (h : words a = words b) :
    (parse a).program.unplaced = (parse b).program.unplaced ∧
      List.Forall₂ (SyntaxError.Alike a b) (parse a).errors (parse b).errors ∧
      ∀ depth scope store, Option.Rel Evaluation.Alike
        ((Node.program (parse a).program).evaluate? depth scope store)
        ((Node.program (parse b).program).evaluate? depth scope store) := by
  have hprogram : (parse a).program.unplaced = (parse b).program.unplaced :=
    (parse_placed (stream_unplaced h)).1
  exact ⟨hprogram, errors_alike h, evaluate?_alike hprogram⟩

/-- A program on lines of its own. -/
def spreadSource : String :=
  "let add = fn(x, y) \x7b\n  x + y;\n\x7d;\n\nadd(1, 2)\n"

/-- The same program without any blank that it can do without. -/
def denseSource : String :=
  "let add=fn(x,y)\x7bx+y;\x7d;add(1,2)"

theorem spread_like_dense :
    words spreadSource = words denseSource ∧ scan spreadSource ≠ scan denseSource ∧
      (parse spreadSource).errors = [] ∧
      ((Node.program (parse spreadSource).program).evaluate? 1 0 Session.new.store).any
        (·.value.any (·.inspect = "3")) = true ∧
      (parse spreadSource).program.unplaced = (parse denseSource).program.unplaced ∧
      Option.Rel Evaluation.Alike
        ((Node.program (parse spreadSource).program).evaluate? 1 0 Session.new.store)
        ((Node.program (parse denseSource).program).evaluate? 1 0 Session.new.store) := by
  have hwords : words spreadSource = words denseSource := by decide +kernel
  obtain ⟨hprogram, _, hresult⟩ := layout_is_free hwords
  exact ⟨hwords, by decide +kernel, by decide +kernel, by decide +kernel, hprogram, hresult _ _ _⟩

end ClosureLang
