import ClosureLang.Syntax.Error
import Mathlib.Data.List.Forall2

/-!
# Room for errors

What a parser that moves forward may still blame, as a list of slots in the order in which they come
up. A token has one slot while it comes next and another one while it is the current token. The end
of the source has one slot, and one more for each block that may be left unclosed.
-/

namespace ClosureLang

/-- What a token is blamed for: that another one is expected in its place, that it is no beginning
of an expression or too large a number, or anything. -/
inductive Blame
  | upcoming
  | current
  | any

def Blame.Allows : Blame → SyntaxError.Cause → Prop
  | upcoming, cause => ∃ wanted hint, cause = .expected wanted hint
  | current, cause => cause = .cannotStart ∨ cause = .outOfRange
  | any, _ => True

/-- A place for one error. -/
structure Slot where
  token : Token
  blame : Blame

structure SyntaxError.Takes (error : SyntaxError) (slot : Slot) : Prop where
  blamed : error.blamed = slot.token
  cause : slot.blame.Allows error.cause

/-- The errors take some of the slots, in their order. -/
def Fills (errors : List SyntaxError) (slots : List Slot) : Prop :=
  ∃ filled, filled.Sublist slots ∧ List.Forall₂ SyntaxError.Takes errors filled

namespace Fills

variable {errors errors' : List SyntaxError} {error : SyntaxError} {slots slots' : List Slot}
  {slot : Slot}

theorem nil (slots : List Slot) : Fills [] slots :=
  ⟨[], List.nil_sublist slots, .nil⟩

theorem mono (h : Fills errors slots) (hsub : slots.Sublist slots') : Fills errors slots' := by
  obtain ⟨filled, hfilled, htakes⟩ := h
  exact ⟨filled, hfilled.trans hsub, htakes⟩

theorem cons (he : error.Takes slot) (h : Fills errors slots) :
    Fills (error :: errors) (slot :: slots) := by
  obtain ⟨filled, hfilled, htakes⟩ := h
  exact ⟨slot :: filled, hfilled.cons_cons slot, .cons he htakes⟩

theorem append (h : Fills errors slots) (h' : Fills errors' slots') :
    Fills (errors ++ errors') (slots ++ slots') := by
  obtain ⟨filled, hfilled, htakes⟩ := h
  obtain ⟨filled', hfilled', htakes'⟩ := h'
  exact ⟨filled ++ filled', hfilled.append hfilled', List.rel_append htakes htakes'⟩

end Fills

/-! ## The room that is left -/

section

variable (finish : Token)

/-- The slot for a block that begins with the token. -/
def spare (token : Token) : List Slot :=
  if token.kind = .leftBrace then [⟨finish, .any⟩] else []

/-- What may be blamed while these tokens are still to come. -/
def ahead : List Token → List Slot
  | [] => [⟨finish, .any⟩]
  | token :: tokens =>
    ⟨token, .upcoming⟩ :: ⟨token, .current⟩ :: (ahead tokens ++ spare finish token)

end

/-- The slots that a parser has left, by the end of the source and the tokens from the current one
on. -/
abbrev Room := Token → List Token → List Slot

namespace Room

/-- A construct begins with the current token. -/
def opening : Room
  | finish, [] => [⟨finish, .any⟩]
  | finish, token :: tokens => ⟨token, .current⟩ :: (ahead finish tokens ++ spare finish token)

/-- The current token has been read. -/
def inside : Room
  | finish, tokens => ahead finish tokens.tail

/-- A statement begins with the current token, if it is not the end. -/
def between : Room
  | _, [] => []
  | finish, token :: tokens => opening finish (token :: tokens)

/-- A construct has been dropped, and statements go on behind the current token. -/
def dropped : Room
  | finish, tokens => between finish tokens.tail

/-- Wherever the one room is left, the other one is. -/
def Within (room room' : Room) : Prop :=
  ∀ finish tokens, (room finish tokens).Sublist (room' finish tokens)

theorem Within.refl (room : Room) : room.Within room :=
  fun _ _ => .refl _

theorem inside_within_opening : inside.Within opening := by
  intro finish tokens
  cases tokens with
  | nil => exact .refl _
  | cons token tokens => exact (List.sublist_append_left _ _).trans (List.sublist_cons_self _ _)

theorem opening_sublist_ahead (finish : Token) (tokens : List Token) :
    (opening finish tokens).Sublist (ahead finish tokens) := by
  cases tokens with
  | nil => exact .refl _
  | cons token tokens => exact List.sublist_cons_self _ _

theorem between_within_opening : between.Within opening := by
  intro finish tokens
  cases tokens with
  | nil => exact List.nil_sublist _
  | cons token tokens => exact .refl _

theorem between_sublist_ahead (finish : Token) (tokens : List Token) :
    (between finish tokens).Sublist (ahead finish tokens) :=
  (between_within_opening finish tokens).trans (opening_sublist_ahead finish tokens)

theorem dropped_within_inside : dropped.Within inside :=
  fun finish tokens => between_sublist_ahead finish tokens.tail

end Room

end ClosureLang
