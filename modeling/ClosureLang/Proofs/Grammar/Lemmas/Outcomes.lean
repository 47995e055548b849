import ClosureLang.Parser.Rules

/-!
# What a run of a parser may come to

A parser moves forward and adds to the errors. Where it drops its construct it has recorded an
error, and it does not run out of depth or rounds. `Outcome` says this together with a property of
the result, one lemma for each step that parsers are put together from.
-/

namespace ClosureLang.Parser

variable {α β : Type}

namespace State

/-- The end of the source stands behind all other tokens. -/
structure Ends (s : State) : Prop where
  finish : s.finish.kind = .eof
  tokens : ∀ t ∈ s.tokens, t.kind ≠ .eof

/-- From `s` a parser may come to `s'`. -/
structure Leads (s s' : State) : Prop where
  tokens : s'.tokens <:+ s.tokens
  finish : s'.finish = s.finish
  errors : s.errors <:+ s'.errors

/-- Fewer than `n` tokens are left. -/
structure Below (n : Nat) (s : State) : Prop extends Ends s where
  length_lt : s.tokens.length < n

theorem Leads.refl (s : State) : s.Leads s :=
  ⟨List.suffix_rfl, rfl, List.suffix_rfl⟩

theorem Leads.trans {s₁ s₂ s₃ : State} (h : s₁.Leads s₂) (h' : s₂.Leads s₃) : s₁.Leads s₃ :=
  ⟨h'.tokens.trans h.tokens, h'.finish.trans h.finish, h.errors.trans h'.errors⟩

theorem Leads.length_le {s s' : State} (h : s.Leads s') : s'.tokens.length ≤ s.tokens.length :=
  h.tokens.length_le

theorem Leads.ends {s s' : State} (h : s.Leads s') (he : s.Ends) : s'.Ends :=
  ⟨h.finish ▸ he.finish, fun t ht => he.tokens t (h.tokens.subset ht)⟩

theorem Leads.below {n : Nat} {s s' : State} (h : s.Leads s') (hb : s.Below n) : s'.Below n :=
  ⟨h.ends hb.toEnds, Nat.lt_of_le_of_lt h.length_le hb.length_lt⟩

theorem Leads.errors_eq {s₁ s₂ s₃ : State} (h : s₁.Leads s₂) (h' : s₂.Leads s₃)
    (he : s₃.errors = s₁.errors) : s₂.errors = s₁.errors :=
  (h.errors.eq_of_length_le (he ▸ h'.errors.length_le)).symm

theorem advance_leads (s : State) : s.Leads s.advance :=
  ⟨s.tokens.tail_suffix, rfl, List.suffix_rfl⟩

theorem Leads.advance {s s' : State} (h : s.Leads s') : s.advance.Leads s'.advance := by
  refine ⟨?_, h.finish, h.errors⟩
  obtain ⟨front, htokens⟩ := h.tokens
  show s'.tokens.tail <:+ s.tokens.tail
  rw [← htokens]
  cases front with
  | nil => exact List.suffix_rfl
  | cons _ front => exact s'.tokens.tail_suffix.trans (List.suffix_append front s'.tokens)

theorem record_leads (s : State) (error : SyntaxError) : s.Leads (s.record error) :=
  ⟨List.suffix_rfl, rfl, List.suffix_cons _ _⟩

@[simp] theorem tokens_advance (s : State) : s.advance.tokens = s.tokens.tail := rfl

@[simp] theorem finish_advance (s : State) : s.advance.finish = s.finish := rfl

@[simp] theorem errors_advance (s : State) : s.advance.errors = s.errors := rfl

@[simp] theorem tokens_note (s : State) (event : TraceEvent) : (s.note event).tokens = s.tokens :=
  rfl

@[simp] theorem finish_note (s : State) (event : TraceEvent) : (s.note event).finish = s.finish :=
  rfl

@[simp] theorem errors_note (s : State) (event : TraceEvent) : (s.note event).errors = s.errors :=
  rfl

theorem note_leads (s : State) (event : TraceEvent) : s.Leads (s.note event) :=
  ⟨List.suffix_rfl, rfl, List.suffix_rfl⟩

/-- What is noted in front and behind makes no difference. -/
theorem Leads.of_note {s s' : State} {event : TraceEvent} (h : (s.note event).Leads s')
    (event' : TraceEvent) : s.Leads (s'.note event') :=
  ⟨h.tokens, h.finish, h.errors⟩

theorem Ends.tokens_eq_cons {s : State} (h : s.Ends) (hk : s.current.kind ≠ .eof) :
    s.tokens = s.current :: s.tokens.tail := by
  cases hs : s.tokens with
  | nil => simp [current, hs, h.finish] at hk
  | cons t ts => simp [current, hs]

theorem Ends.tokens_eq_nil {s : State} (h : s.Ends) (hk : s.current.kind = .eof) :
    s.tokens = [] := by
  cases hs : s.tokens with
  | nil => rfl
  | cons t ts =>
      rw [current, hs] at hk
      exact absurd hk (h.tokens t (hs ▸ List.mem_cons_self))

theorem Ends.tail_eq_cons {s : State} (h : s.Ends) (hk : s.upcoming.kind ≠ .eof) :
    s.tokens.tail = s.upcoming :: s.tokens.tail.tail :=
  ((advance_leads s).ends h).tokens_eq_cons hk

/-- From `s` to `s'` the tokens `read` have been passed over, up to the current one of `s'`. -/
def Reads (s : State) (read : List Token) (s' : State) : Prop :=
  s.tokens = read ++ s'.tokens.tail

theorem Reads.trans {s s' s'' : State} {ts us : List Token} (h : s.Reads ts s')
    (h' : s'.advance.Reads us s'') : s.Reads (ts ++ us) s'' := by
  rw [Reads, h, List.append_assoc]
  exact congrArg _ h'

theorem Reads.current_eq {s s' : State} {t : Token} {ts : List Token} (h : s.Reads (t :: ts) s') :
    s.current = t := by
  have h : s.tokens = (t :: ts) ++ s'.tokens.tail := h
  simp [current, h]

theorem Ends.reads_current {s : State} (h : s.Ends) (hk : s.current.kind ≠ .eof) :
    s.Reads [s.current] s :=
  h.tokens_eq_cons hk

theorem Ends.length_advance_lt {s : State} (h : s.Ends) (hk : s.current.kind ≠ .eof) :
    s.advance.tokens.length < s.tokens.length := by
  rw [h.tokens_eq_cons hk]
  simp

theorem Ends.length_advance_lt_of_upcoming {s : State} (h : s.Ends) (hk : s.upcoming.kind ≠ .eof) :
    s.advance.tokens.length < s.tokens.length := by
  have hlength := congrArg List.length (h.tail_eq_cons hk)
  simp only [tokens_advance, List.length_tail, List.length_cons] at hlength ⊢
  omega

end State

theorem State.Below.advance {n : Nat} {s : State} (h : s.Below (n + 1))
    (hk : s.current.kind ≠ .eof) : s.advance.Below n :=
  ⟨s.advance_leads.ends h.toEnds, Nat.lt_of_lt_of_le (h.toEnds.length_advance_lt hk)
    (Nat.le_of_lt_succ h.length_lt)⟩

theorem State.Below.advance_of_upcoming {n : Nat} {s : State} (h : s.Below (n + 1))
    (hk : s.upcoming.kind ≠ .eof) : s.advance.Below n :=
  ⟨s.advance_leads.ends h.toEnds, Nat.lt_of_lt_of_le (h.toEnds.length_advance_lt_of_upcoming hk)
    (Nat.le_of_lt_succ h.length_lt)⟩

theorem State.Below.succ {n : Nat} {s : State} (h : s.Below n) : s.Below (n + 1) :=
  ⟨h.toEnds, Nat.lt_succ_of_lt h.length_lt⟩

/-- What a run that starts in `s` may come to, with `Q` for the result. -/
inductive Outcome (s : State) (Q : α → State → Prop) : EStateM.Result Failure State α → Prop
  | ok {a s'} : s.Leads s' → Q a s' → Outcome s Q (.ok a s')
  | dropped {s'} : s.Leads s' → s'.errors ≠ s.errors → Outcome s Q (.error .dropped s')

variable {s : State} {Q : α → State → Prop} {R : β → State → Prop}

theorem Outcome.mono {Q' : α → State → Prop} {r : EStateM.Result Failure State α}
    (h : Outcome s Q r) (hQ : ∀ a s', s.Leads s' → Q a s' → Q' a s') : Outcome s Q' r := by
  cases h with
  | ok hl hq => exact .ok hl (hQ _ _ hl hq)
  | dropped hl he => exact .dropped hl he

/-- An error that has been recorded stays on record. -/
theorem Outcome.trans {s₁ : State} {r : EStateM.Result Failure State α} (hs : s.Leads s₁)
    (h : Outcome s₁ Q r) : Outcome s Q r := by
  cases h with
  | ok hl hq => exact .ok (hs.trans hl) hq
  | dropped hl he =>
      refine .dropped (hs.trans hl) fun he' => he ?_
      exact he'.trans (hs.errors_eq hl he').symm

theorem Outcome.pure {a : α} (h : Q a s) : Outcome s Q ((Pure.pure a : Parser α) s) :=
  .ok (.refl s) h

theorem Outcome.bind {p : Parser α} {f : α → Parser β} (hp : Outcome s Q (p s))
    (hf : ∀ a s', s.Leads s' → Q a s' → Outcome s' R (f a s')) : Outcome s R ((p >>= f) s) := by
  simp only [Bind.bind, EStateM.bind]
  generalize p s = r at hp ⊢
  cases hp with
  | ok hl hq => exact (hf _ _ hl hq).trans hl
  | dropped hl he => exact .dropped hl he

theorem Outcome.map {p : Parser α} {f : α → β} (hp : Outcome s Q (p s))
    (hf : ∀ a s', s.Leads s' → Q a s' → R (f a) s') : Outcome s R ((f <$> p) s) := by
  simp only [Functor.map, EStateM.map]
  generalize p s = r at hp ⊢
  cases hp with
  | ok hl hq => exact .ok hl (hf _ _ hl hq)
  | dropped hl he => exact .dropped hl he

theorem current_bind (f : Token → Parser α) (s : State) :
    (current >>= f) s = f s.current s := rfl

theorem upcoming_bind (f : Token → Parser α) (s : State) :
    (upcoming >>= f) s = f s.upcoming s := rfl

theorem advance_bind (f : Unit → Parser α) (s : State) :
    (advance >>= f) s = f () s.advance := rfl

theorem bind_eq {p : Parser α} {f : α → Parser β} {a : α} {s s' : State} (h : p s = .ok a s') :
    (p >>= f) s = f a s' := by
  simp only [Bind.bind, EStateM.bind, h]

theorem bind_eq_error {p : Parser α} {f : α → Parser β} {failure : Failure} {s s' : State}
    (h : p s = .error failure s') : (p >>= f) s = .error failure s' := by
  simp only [Bind.bind, EStateM.bind, h]

theorem expect_eq {wanted : Kind} {hint : Option Hint} {s : State} (h : s.upcoming.kind = wanted) :
    expect wanted hint s = .ok s.upcoming s.advance := by
  simp only [expect, upcoming_bind, if_pos h]
  rfl

theorem expect_eq_error {wanted : Kind} {hint : Option Hint} {s : State}
    (h : s.upcoming.kind ≠ wanted) : expect wanted hint s =
      .error .dropped (s.record ⟨s.upcoming, .expected wanted hint⟩) := by
  simp only [expect, upcoming_bind, if_neg h]
  rfl

theorem Outcome.advance_bind {f : Unit → Parser α} (h : Outcome s.advance Q (f () s.advance)) :
    Outcome s Q ((advance >>= f) s) :=
  Outcome.trans s.advance_leads h

theorem outcome_reject (error : SyntaxError) : Outcome s Q (reject error s) := by
  refine .dropped (s.record_leads error) fun h => ?_
  have hl := congrArg List.length h
  simp [State.record] at hl

theorem outcome_expect (hs : s.Ends) {wanted : Kind} {hint : Option Hint} (hw : wanted ≠ .eof) :
    Outcome s (fun t s' => t.kind = wanted ∧ s' = s.advance ∧ s.advance.Reads [t] s.advance)
      (expect wanted hint s) := by
  simp only [expect, upcoming_bind]
  split
  · rename_i hk
    refine Outcome.advance_bind (.pure ⟨hk, rfl, ?_⟩)
    exact (s.advance_leads.ends hs).reads_current (hk ▸ hw)
  · exact outcome_reject _

/-- Inside a rule of the trace nothing but the trace is different. -/
theorem outcome_inside {activity : Activity} {p : Parser α} {Q : State → α → State → Prop}
    (hQ : ∀ s a s' event event', Q (s.note event) a s' → Q s a (s'.note event'))
    (hp : Outcome (s.note (.enter activity)) (Q (s.note (.enter activity)))
      (p (s.note (.enter activity)))) :
    Outcome s (Q s) (within activity p s) := by
  unfold within
  generalize p (s.note (.enter activity)) = r at hp ⊢
  cases hp with
  | ok hl hq => exact .ok (hl.of_note _) (hQ s _ _ _ _ hq)
  | dropped hl he => exact .dropped (hl.of_note _) he

/-- The state in front of the rule is forgotten, apart from its current token and the number of
tokens left. -/
theorem outcome_within {n : Nat} {activity : Activity} {p : Parser α} {C : Token → Prop}
    {Q : State → α → State → Prop} (hs : s.Below n) (hc : C s.current)
    (hQ : ∀ s a s' event event', Q (s.note event) a s' → Q s a (s'.note event'))
    (hp : ∀ s : State, s.Below n → C s.current → Outcome s (Q s) (p s)) :
    Outcome s (Q s) (within activity p s) :=
  outcome_inside hQ (hp _ ((s.note_leads _).below hs) hc)

theorem outcome_attempt {p : Parser α} (hp : Outcome s Q (p s)) :
    Outcome s (fun a? s' => match a? with | some a => Q a s' | none => s'.errors ≠ s.errors)
      (attempt p s) := by
  unfold attempt
  generalize p s = r at hp ⊢
  cases hp with
  | ok hl hq => exact .ok hl hq
  | dropped hl he => exact .ok hl he

theorem guard_eq (p : Prop) [Decidable p] : guard p = if p then some () else none :=
  rfl

theorem guard_eq_none_iff {p : Prop} [Decidable p] : guard p = (none : Option Unit) ↔ ¬ p := by
  rw [guard_eq]
  split
  · next hp => exact ⟨nofun, fun h => absurd hp h⟩
  · next hp => exact ⟨fun _ => hp, fun _ => rfl⟩

theorem of_guard_eq_some {p : Prop} [Decidable p] {u : Unit} (h : guard p = some u) : p := by
  rw [guard_eq] at h
  split at h
  · assumption
  · cases h

theorem guard_of {p : Prop} [Decidable p] (h : p) : guard p = some () := by
  rw [guard_eq, if_pos h]

/-- At the end there are no more statements. -/
theorem State.Ends.stops_of_nil {s : State} (hs : s.Ends) (ht : s.tokens = []) {stops : Kind → Bool}
    (hstops : stops .eof = true) : guard (¬ stops s.current.kind) = (none : Option Unit) := by
  rw [guard_eq_none_iff]
  simp [State.current, ht, hs.finish, hstops]

/-- At the end there is no comma. -/
theorem State.Ends.comma_of_nil {s : State} (hs : s.Ends) (ht : s.tokens = []) :
    guard (s.upcoming.kind = .comma) = (none : Option Unit) := by
  rw [guard_eq_none_iff]
  simp [State.upcoming, ht, hs.finish]

/-- At the end no expression goes on. -/
theorem State.Ends.continuation?_of_nil {s : State} (hs : s.Ends) (ht : s.tokens = [])
    (limit : Precedence) : continuation? limit s = none := by
  simp [continuation?, State.upcoming, ht, hs.finish, Continuation.ofKind?]

theorem get_bind (f : State → Parser α) (s : State) : (get >>= f) s = f s s :=
  rfl

theorem rounds_of_none {pick : State → Option β} {round : β → α → Parser α} (h : pick s = none)
    (left : List Token) (acc : α) : rounds pick round left acc s = .ok acc s := by
  cases left with
  | nil =>
      rw [rounds, get_bind, h]
      rfl
  | cons t left =>
      rw [rounds, get_bind, h]
      rfl

theorem rounds_of_some {pick : State → Option β} {round : β → α → Parser α} {b : β}
    (h : pick s = some b) (t : Token) (left : List Token) (acc : α) :
    rounds pick round (t :: left) acc s = (round b acc >>= rounds pick round left) s := by
  rw [rounds, get_bind, h]

/-- `J` is the invariant of a loop. Each round uses up a token, and without tokens there is nothing
to do. -/
theorem outcome_rounds {J : α → State → Prop} {pick : State → Option β}
    {round : β → α → Parser α}
    (stop : ∀ acc s, J acc s → s.tokens = [] → pick s = none)
    (step : ∀ acc s b, J acc s → pick s = some b →
      Outcome s (fun acc' s' => J acc' s' ∧ s'.tokens.length < s.tokens.length) (round b acc s)) :
    ∀ (left : List Token) (acc : α) (s : State), J acc s → s.tokens.length ≤ left.length →
      Outcome s (fun acc' s' => J acc' s' ∧ pick s' = none) (rounds pick round left acc s)
  | left, acc, s, hJ, hl => by
      cases hp : pick s with
      | none => rw [rounds_of_none hp]; exact .pure ⟨hJ, hp⟩
      | some b =>
          cases left with
          | nil =>
              have hn := stop acc s hJ (List.length_eq_zero_iff.mp (Nat.le_zero.mp hl))
              rw [hn] at hp
              cases hp
          | cons t left =>
              rw [rounds_of_some hp]
              refine (step acc s b hJ hp).bind fun acc' s' _ h => ?_
              have hl' : s'.tokens.length ≤ left.length := by
                have := h.2; simp only [List.length_cons] at hl; omega
              exact outcome_rounds stop step left acc' s' h.1 hl'

theorem outcome_loop {J : α → State → Prop} {pick : State → Option β} {round : β → α → Parser α}
    {acc : α} (hJ : J acc s)
    (stop : ∀ acc s, J acc s → s.tokens = [] → pick s = none)
    (step : ∀ acc s b, J acc s → pick s = some b →
      Outcome s (fun acc' s' => J acc' s' ∧ s'.tokens.length < s.tokens.length) (round b acc s)) :
    Outcome s (fun acc' s' => J acc' s' ∧ pick s' = none) (loop pick round acc s) :=
  outcome_rounds stop step s.tokens acc s hJ (Nat.le_refl _)

end ClosureLang.Parser
