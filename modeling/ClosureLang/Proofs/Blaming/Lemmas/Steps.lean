import ClosureLang.Proofs.Blaming.Slots
import ClosureLang.Proofs.Grammar.Lemmas.Outcomes

/-!
# Parsers that use up room

Between the room in front of a run and the room behind it there are slots for the errors that the
run records, also where it drops its construct. One lemma for each step that parsers are put
together from.
-/

namespace ClosureLang.Parser

open Room

variable {α β : Type} {s s' s'' : State} {R R' R'' : Room}

/-- The errors that have been recorded from `s` to `s'` have room in front of what has room in `R'`.
-/
def State.Uses (R R' : Room) (s s' : State) : Prop :=
  ∃ errors, s'.errors = errors.reverse ++ s.errors ∧
    ∀ more, Fills more (R' s'.finish s'.tokens) → Fills (errors ++ more) (R s.finish s.tokens)

namespace State.Uses

theorem none (herrors : s'.errors = s.errors)
    (hsub : (R' s'.finish s'.tokens).Sublist (R s.finish s.tokens)) : s.Uses R R' s' :=
  ⟨[], herrors, fun _ hmore => hmore.mono hsub⟩

theorem trans (h : s.Uses R R' s') (h' : s'.Uses R' R'' s'') : s.Uses R R'' s'' := by
  obtain ⟨errors, herrors, hfills⟩ := h
  obtain ⟨errors', herrors', hfills'⟩ := h'
  refine ⟨errors ++ errors', ?_, fun more hmore => ?_⟩
  · rw [herrors', herrors, List.reverse_append, List.append_assoc]
  · rw [List.append_assoc]
    exact hfills _ (hfills' more hmore)

/-- An error that takes the first slot. -/
theorem record {error : SyntaxError} {slot : Slot} {slots : List Slot}
    (hroom : R s.finish s.tokens = slot :: slots) (he : error.Takes slot)
    (hsub : (R' s.finish s.tokens).Sublist slots) : s.Uses R R' (s.record error) := by
  refine ⟨[error], rfl, fun more hmore => ?_⟩
  rw [hroom]
  exact (hmore.mono hsub).cons he

end State.Uses

/-- What a run from `s` may come to that has the room `R` in front of it and leaves `R'`. -/
inductive Spends (R R' : Room) (s : State) : EStateM.Result Failure State α → Prop
  | ok {a : α} {s' : State} : s.Leads s' → s.Uses R R' s' → Spends R R' s (.ok a s')
  | dropped {s' : State} : s.Leads s' → s.Uses R dropped s' → Spends R R' s (.error .dropped s')
  | exhausted {s' : State} : Spends R R' s (.error .exhausted s')

def Blames (R R' : Room) (p : Parser α) : Prop :=
  ∀ s : State, s.Ends → Spends R R' s (p s)

theorem Spends.after {r : EStateM.Result Failure State α} (hl : s.Leads s') (hu : s.Uses R R' s')
    (h : Spends R' R'' s' r) : Spends R R'' s r := by
  cases h with
  | ok hl' hu' => exact .ok (hl.trans hl') (hu.trans hu')
  | dropped hl' hu' => exact .dropped (hl.trans hl') (hu.trans hu')
  | exhausted => exact .exhausted

theorem Spends.of_ok {a : α} (h : Spends R R' s (.ok a s')) : s.Leads s' ∧ s.Uses R R' s' := by
  cases h with
  | ok hl hu => exact ⟨hl, hu⟩

theorem Spends.bind {p : Parser α} {f : α → Parser β} (hp : Spends R R' s (p s))
    (hf : ∀ a s', s.Leads s' → Spends R' R'' s' (f a s')) : Spends R R'' s ((p >>= f) s) := by
  simp only [Bind.bind, EStateM.bind]
  generalize p s = r at hp ⊢
  cases hp with
  | ok hl hu => exact (hf _ _ hl).after hl hu
  | dropped hl hu => exact .dropped hl hu
  | exhausted => exact .exhausted

theorem Spends.within {activity : Activity} {p : Parser α}
    (hp : Spends R R' (s.note (.enter activity)) (p (s.note (.enter activity)))) :
    Spends R R' s (Parser.within activity p s) := by
  unfold Parser.within
  generalize p (s.note (.enter activity)) = r at hp ⊢
  cases hp with
  | ok hl hu => exact .ok (hl.of_note _) hu
  | dropped hl hu => exact .dropped (hl.of_note _) hu
  | exhausted => exact .exhausted

/-- A construct that begins with the current token is dropped because of it. -/
theorem spends_reject {cause : SyntaxError.Cause} (hc : Blame.current.Allows cause) :
    Spends opening R s (reject ⟨s.current, cause⟩ s : EStateM.Result Failure State α) := by
  refine .dropped (s.record_leads _) ?_
  cases htokens : s.tokens with
  | nil =>
      have hcurrent : s.current = s.finish := by rw [State.current, htokens]; rfl
      have hroom : opening s.finish s.tokens = [⟨s.finish, .any⟩] := by rw [htokens]; rfl
      exact .record hroom ⟨hcurrent, trivial⟩ (by rw [htokens]; exact .refl _)
  | cons token tokens =>
      have hcurrent : s.current = token := by rw [State.current, htokens]; rfl
      have hroom : opening s.finish s.tokens =
          ⟨token, .current⟩ :: (ahead s.finish tokens ++ spare s.finish token) := by
        rw [htokens]
        rfl
      refine .record hroom ⟨hcurrent, hc⟩ ?_
      rw [htokens]
      exact (dropped_within_inside _ (token :: tokens)).trans (List.sublist_append_left _ _)

namespace Blames

theorem pure (h : R'.Within R) (a : α) : Blames R R' (Pure.pure a) :=
  fun s _ => .ok (.refl s) (.none rfl (h _ _))

theorem drop (h : dropped.Within R) : Blames R R' (MonadExcept.throw .dropped : Parser α) :=
  fun s _ => .dropped (.refl s) (.none rfl (h _ _))

theorem current : Blames R R Parser.current :=
  fun s _ => .ok (.refl s) (.none rfl (.refl _))

theorem upcoming : Blames R R Parser.upcoming :=
  fun s _ => .ok (.refl s) (.none rfl (.refl _))

theorem advance : Blames inside opening Parser.advance :=
  fun s _ => .ok s.advance_leads (.none rfl (opening_sublist_ahead _ _))

variable {p : Parser α}

theorem imp (h : Blames R R' p) {S S' : Room} (hfront : R.Within S) (hbehind : S'.Within R') :
    Blames S S' p := by
  intro s hs
  have hrun := h s hs
  generalize p s = r at hrun ⊢
  cases hrun with
  | ok hl hu =>
      exact .ok hl ((State.Uses.none rfl (hfront _ _)).trans (hu.trans (.none rfl (hbehind _ _))))
  | dropped hl hu => exact .dropped hl ((State.Uses.none rfl (hfront _ _)).trans hu)
  | exhausted => exact .exhausted

theorem bind {f : α → Parser β} (hp : Blames R R' p) (hf : ∀ a, Blames R' R'' (f a)) :
    Blames R R'' (p >>= f) :=
  fun s hs => (hp s hs).bind fun a s' hl => hf a s' (hl.ends hs)

theorem map (f : α → β) (hp : Blames R R' p) : Blames R R' (f <$> p) := by
  rw [map_eq_pure_bind]
  exact hp.bind fun a => pure (.refl _) (f a)

theorem within (activity : Activity) (hp : Blames R R' p) :
    Blames R R' (Parser.within activity p) :=
  fun s hs => .within (hp _ ((s.note_leads (.enter activity)).ends hs))

theorem attempt (hp : Blames R inside p) : Blames R dropped (Parser.attempt p) := by
  intro s hs
  have hrun := hp s hs
  unfold Parser.attempt
  generalize p s = r at hrun ⊢
  cases hrun with
  | ok hl hu => exact .ok hl (hu.trans (.none rfl (dropped_within_inside _ _)))
  | dropped hl hu => exact .ok hl hu
  | exhausted => exact .exhausted

/-- The token that comes next is blamed if it is not the wanted one. -/
theorem expect (wanted : Kind) (hint : Option Hint) :
    Blames inside inside (Parser.expect wanted hint) := by
  intro s hs
  by_cases hk : s.upcoming.kind = wanted
  · rw [expect_eq hk]
    refine .ok s.advance_leads (.none rfl ?_)
    exact (inside_within_opening _ _).trans (opening_sublist_ahead _ _)
  · rw [expect_eq_error hk]
    refine .dropped (s.record_leads _) ?_
    cases htail : s.tokens.tail with
    | nil =>
        have hupcoming : s.upcoming = s.finish := by rw [State.upcoming, htail]; rfl
        have hroom : inside s.finish s.tokens = [⟨s.finish, .any⟩] := by rw [inside, htail]; rfl
        exact .record hroom ⟨hupcoming, trivial⟩ (by rw [Room.dropped, htail]; exact .refl _)
    | cons token tokens =>
        have hupcoming : s.upcoming = token := by rw [State.upcoming, htail]; rfl
        have hroom : inside s.finish s.tokens =
            ⟨token, .upcoming⟩ :: opening s.finish (token :: tokens) := by rw [inside, htail]; rfl
        exact .record hroom ⟨hupcoming, _, _, rfl⟩ (by rw [Room.dropped, htail]; exact .refl _)

theorem rounds {pick : State → Option β} {round : β → α → Parser α}
    (hround : ∀ b acc s, s.Ends → pick s = some b → Spends R R s (round b acc s))
    (left : List Token) (acc : α) : Blames R R (Parser.rounds pick round left acc) := by
  induction left generalizing acc with
  | nil =>
      intro s hs
      cases hpick : pick s with
      | none => rw [rounds_of_none hpick]; exact pure (.refl _) acc s hs
      | some b => rw [Parser.rounds, get_bind, hpick]; exact .exhausted
  | cons token left ih =>
      intro s hs
      cases hpick : pick s with
      | none => rw [rounds_of_none hpick]; exact pure (.refl _) acc s hs
      | some b =>
          rw [rounds_of_some hpick]
          exact (hround b acc s hs hpick).bind fun acc s' hl => ih acc s' (hl.ends hs)

theorem loop {pick : State → Option β} {round : β → α → Parser α}
    (hround : ∀ b acc s, s.Ends → pick s = some b → Spends R R s (round b acc s)) (acc : α) :
    Blames R R (Parser.loop pick round acc) :=
  fun s hs => rounds hround s.tokens acc s hs

end Blames

end ClosureLang.Parser
