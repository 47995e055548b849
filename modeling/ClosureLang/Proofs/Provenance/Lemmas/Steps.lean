import ClosureLang.Parser.Program
import ClosureLang.Proofs.Grammar.Lemmas.Outcomes
import ClosureLang.Proofs.Rendering.Lemmas.Spelling

/-!
# Parsers within a source

A parser that stands at tokens of a source stays at tokens of it, and blames tokens of it, whether
it succeeds or drops its construct. One lemma for each step that parsers are put together from.
-/

namespace ClosureLang

/-- The tokens of a source, with its end among them. -/
def Token.IsOf (source : String) (token : Token) : Prop :=
  token ∈ scan source ∨ token = endToken source

theorem Token.IsOf.spells {source : String} {token : Token} {kind : Kind} (h : token.IsOf source)
    (hk : token.kind = kind) (hne : kind ≠ .eof) : Spells kind token.literal := by
  subst hk
  cases h with
  | inl hmem => exact Scanner.spells_of_mem token hmem
  | inr hend => exact absurd (congrArg Token.kind hend) hne

namespace Parser

variable {α β : Type} {source : String} {s : State}

/-- All that is still to be read, and all that has been blamed, are tokens of the source. -/
structure State.Within (source : String) (s : State) : Prop where
  tokens : ∀ t ∈ s.tokens, t ∈ scan source
  finish : s.finish = endToken source
  errors : ∀ e ∈ s.errors, e.blamed.IsOf source

namespace State.Within

theorem ofString (source : String) : (State.ofString source).Within source :=
  ⟨fun _ ht => ht, rfl, by simp [State.ofString]⟩

theorem current (h : s.Within source) : s.current.IsOf source := by
  rw [State.current]
  cases hs : s.tokens with
  | nil => exact .inr h.finish
  | cons t ts => exact .inl (h.tokens t (by rw [hs]; exact List.mem_cons_self))

theorem advance (h : s.Within source) : s.advance.Within source :=
  ⟨fun t ht => h.tokens t (List.mem_of_mem_tail ht), h.finish, h.errors⟩

theorem upcoming (h : s.Within source) : s.upcoming.IsOf source :=
  h.advance.current

theorem note (h : s.Within source) (event : TraceEvent) : (s.note event).Within source :=
  ⟨h.tokens, h.finish, h.errors⟩

theorem record (h : s.Within source) {error : SyntaxError} (he : error.blamed.IsOf source) :
    (s.record error).Within source := by
  refine ⟨h.tokens, h.finish, ?_⟩
  intro e hmem
  cases List.mem_cons.mp hmem with
  | inl heq => exact heq ▸ he
  | inr hmem => exact h.errors e hmem

end State.Within

/-- A run has stayed within the source, and `Q` holds of a result. -/
inductive Stays (source : String) (Q : α → Prop) : EStateM.Result Failure State α → Prop
  | ok {a s'} : s'.Within source → Q a → Stays source Q (.ok a s')
  | error {failure s'} : s'.Within source → Stays source Q (.error failure s')

/-- All that a parser makes within a source has the property `Q`. -/
def Makes (source : String) (Q : α → Prop) (p : Parser α) : Prop :=
  ∀ s : State, s.Within source → Stays source Q (p s)

variable {Q : α → Prop} {R : β → Prop}

theorem Stays.bind {p : Parser α} {f : α → Parser β} (hp : Stays source Q (p s))
    (hf : ∀ a, Q a → Makes source R (f a)) : Stays source R ((p >>= f) s) := by
  simp only [Bind.bind, EStateM.bind]
  generalize p s = r at hp ⊢
  cases hp with
  | ok hs hq => exact hf _ hq _ hs
  | error hs => exact .error hs

theorem Stays.within {activity : Activity} {p : Parser α}
    (hp : Stays source Q (p (s.note (.enter activity)))) :
    Stays source Q (Parser.within activity p s) := by
  unfold Parser.within
  generalize p (s.note (.enter activity)) = r at hp ⊢
  cases hp with
  | ok hs hq => exact .ok (hs.note _) hq
  | error hs => exact .error (hs.note _)

namespace Makes

theorem pure {a : α} (h : Q a) : Makes source Q (Pure.pure a) :=
  fun _ hs => .ok hs h

theorem bind {p : Parser α} {f : α → Parser β} (hp : Makes source Q p)
    (hf : ∀ a, Q a → Makes source R (f a)) : Makes source R (p >>= f) :=
  fun s hs => (hp s hs).bind hf

theorem map {p : Parser α} {f : α → β} (hp : Makes source Q p) (hf : ∀ a, Q a → R (f a)) :
    Makes source R (f <$> p) := by
  intro s hs
  have h := hp s hs
  simp only [Functor.map, EStateM.map]
  generalize p s = r at h ⊢
  cases h with
  | ok hs hq => exact .ok hs (hf _ hq)
  | error hs => exact .error hs

theorem throw (failure : Failure) : Makes source Q (MonadExcept.throw failure : Parser α) :=
  fun _ hs => .error hs

theorem current : Makes source (Token.IsOf source) Parser.current :=
  fun _ hs => .ok hs hs.current

theorem upcoming : Makes source (Token.IsOf source) Parser.upcoming :=
  fun _ hs => .ok hs hs.upcoming

theorem advance : Makes source (fun _ => True) Parser.advance :=
  fun _ hs => .ok hs.advance trivial

theorem reject {error : SyntaxError} (he : error.blamed.IsOf source) :
    Makes source Q (Parser.reject error) :=
  fun _ hs => .error (hs.record he)

theorem expect (wanted : Kind) (hint : Option Hint) :
    Makes source (fun t => t.IsOf source ∧ t.kind = wanted) (Parser.expect wanted hint) := by
  refine upcoming.bind fun token ht => ?_
  split
  · next hk => exact advance.bind fun _ _ => pure ⟨ht, hk⟩
  · exact reject ht

theorem within {p : Parser α} (activity : Activity) (hp : Makes source Q p) :
    Makes source Q (Parser.within activity p) :=
  fun _ hs => (hp _ (hs.note _)).within

theorem attempt {p : Parser α} (hp : Makes source Q p) :
    Makes source (fun a? => ∀ a ∈ a?, Q a) (Parser.attempt p) := by
  intro s hs
  have h := hp s hs
  unfold Parser.attempt
  generalize p s = r at h ⊢
  cases h with
  | ok hs hq => exact .ok hs fun _ ha => Option.mem_some_iff.mp ha ▸ hq
  | @error failure s' hs =>
      cases failure with
      | dropped => exact .ok hs (by simp)
      | exhausted => exact .error hs

theorem rounds {pick : State → Option β} {round : β → α → Parser α}
    (step : ∀ b acc, Q acc → Makes source Q (round b acc)) :
    ∀ (left : List Token) (acc : α), Q acc → Makes source Q (Parser.rounds pick round left acc)
  | left, acc, hacc => by
      intro s hs
      cases hp : pick s with
      | none =>
          rw [rounds_of_none hp]
          exact .ok hs hacc
      | some b =>
          cases left with
          | nil =>
              rw [Parser.rounds, get_bind, hp]
              exact .error hs
          | cons t left =>
              rw [rounds_of_some hp]
              exact (step b acc hacc).bind (rounds step left) s hs

/-- `Q` is the invariant of a loop. -/
theorem loop {pick : State → Option β} {round : β → α → Parser α}
    (step : ∀ b acc, Q acc → Makes source Q (round b acc)) {acc : α} (hacc : Q acc) :
    Makes source Q (Parser.loop pick round acc) :=
  fun s hs => rounds step s.tokens acc hacc s hs

end Makes

end Parser

end ClosureLang
