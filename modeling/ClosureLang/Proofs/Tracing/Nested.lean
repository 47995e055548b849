import ClosureLang.Parser.State

/-!
# Nested traces

A trace is nested if each rule is left before any that was entered in front of it. It is a tree if
everything else happens inside one rule.
-/

namespace ClosureLang

/-- The rules that are open behind the events, the last one that was entered in front, if these were
open before. There is no answer if a rule is left that is not the last one that was entered. -/
def openBehind : List Activity → List TraceEvent → Option (List Activity)
  | stack, [] => some stack
  | stack, .enter activity :: events => openBehind (activity :: stack) events
  | [], .leave _ :: _ => none
  | last :: stack, .leave activity :: events =>
    if activity = last then openBehind stack events else none

/-- One tree with this rule at its root. -/
def IsTree (root : Activity) (trace : List TraceEvent) : Prop :=
  ∃ inside, trace = .enter root :: (inside ++ [.leave root]) ∧ openBehind [] inside = some []

/-- The events leave all rules that they enter, and no others. -/
def Nests (events : List TraceEvent) : Prop :=
  ∀ stack, openBehind stack events = some stack

theorem openBehind_append (stack : List Activity) (front behind : List TraceEvent) :
    openBehind stack (front ++ behind) =
      (openBehind stack front).bind fun stack => openBehind stack behind := by
  fun_induction openBehind stack front with
  | case1 => rfl
  | case2 _ _ _ ih => exact ih
  | case3 => rfl
  | case4 activity stack events ih =>
      rw [List.cons_append, openBehind, if_pos rfl]
      exact ih
  | case5 last stack activity events hne =>
      rw [List.cons_append, openBehind, if_neg hne]
      rfl

namespace Nests

variable {events more : List TraceEvent}

theorem nil : Nests [] :=
  fun _ => rfl

theorem append (h : Nests events) (h' : Nests more) : Nests (events ++ more) := by
  intro stack
  rw [openBehind_append, h stack]
  exact h' stack

/-- Inside one more rule. -/
theorem around (activity : Activity) (h : Nests events) :
    Nests (.enter activity :: (events ++ [.leave activity])) := by
  intro stack
  rw [openBehind, openBehind_append, h (activity :: stack)]
  exact if_pos rfl

end Nests

end ClosureLang
