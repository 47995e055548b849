import ClosureLang.Proofs.Interacting.Lemmas.Lines

/-!
# Round after round

What rejected inputs and inputs that close the loop are answered, and the rounds of a list of inputs
of which some are left out.
-/

namespace ClosureLang.Repl

variable {depth : Nat} {session : Session} {input : Input} {inputs : List Input} {turn : Turn}
  {round : Round} {rounds : List Round} {gone : Nat → Bool}

/-! ## One round -/

theorem turn?_line (depth : Nat) (session : Session) (text : String) :
    turn? depth session (.line text) =
      if (command text).isEmpty then some ⟨.empty, some session⟩
      else if (command text).map Char.toLower = "exit" then some ⟨.empty, none⟩
      else answer? depth session (command text) :=
  rfl

/-- A character is its lower-case form, or the upper-case form of that. -/
theorem eq_or_eq_of_toLower {c d : Char} (h : c.toLower = d) : c = d ∨ c = d.toUpper := by
  subst h
  by_cases hupper : 'A'.val ≤ c.val ∧ c.val ≤ 'Z'.val
  · have hlower : c.toLower.val = c.val + 32 := congrArg Char.val (dif_pos hupper)
    have hin : 'a'.val ≤ c.toLower.val ∧ c.toLower.val ≤ 'z'.val := by
      simp only [UInt32.le_iff_toNat_le] at hupper
      simp only [hlower, UInt32.le_iff_toNat_le, UInt32.toNat_add]
      grind
    have hback : c.toLower.toUpper = _ := dif_pos hin
    have hsame : c.val = c.toLower.val + ('A'.val - 'a'.val) := by grind
    right
    rw [hback]
    exact Char.ext hsame
  · have hsame : c.toLower = c := dif_neg hupper
    exact .inl hsame.symm

theorem all_spellings_parse :
    (['e', 'E'].all fun e => ['x', 'X'].all fun x => ['i', 'I'].all fun i => ['t', 'T'].all fun t =>
      (parse (String.ofList [e, x, i, t])).errors.isEmpty) = true := by
  decide +kernel

/-- What closes the loop is a name, and has no syntax errors. -/
theorem errors_of_exit {word : String} (h : word.map Char.toLower = "exit") :
    (parse word).errors = [] := by
  have hletters : word.toList.map Char.toLower = ['e', 'x', 'i', 't'] := by
    rw [← String.toList_map, h]
    rfl
  simp only [List.map_eq_cons_iff, List.map_eq_nil_iff] at hletters
  obtain ⟨e, _, hword, he, x, _, rfl, hx, i, _, rfl, hi, t, _, rfl, ht, rfl⟩ := hletters
  rw [← String.ofList_toList (s := word), hword]
  have hmem {c d : Char} (h : c.toLower = d) : c ∈ [d, d.toUpper] := by
    simpa using eq_or_eq_of_toLower h
  have hall := all_spellings_parse
  simp only [List.all_eq_true, List.isEmpty_iff] at hall
  exact hall e (hmem he) x (hmem hx) i (hmem hi) t (hmem ht)

theorem errors_of_empty : (parse "").errors = [] := by
  decide +kernel

/-- A rejected input is answered with the reports of its errors, and the session goes on as it was.
-/
theorem turn?_of_isRejected (h : input.isRejected = true) (depth : Nat) (session : Session) :
    turn? depth session input = some ⟨.onErr input.reports, some session⟩ := by
  cases input with
  | line text =>
      rw [turn?_line, Input.reports]
      by_cases hempty : (command text).isEmpty = true
      · rw [if_pos hempty, String.isEmpty_iff.mp hempty, errors_of_empty]
        rfl
      · have herrors : ¬ (parse (command text)).errors.isEmpty = true := by
          simpa [Input.isRejected, hempty] using h
        have hexit : ¬ (command text).map Char.toLower = "exit" :=
          fun h => herrors (List.isEmpty_iff.mpr (errors_of_exit h))
        rw [if_neg hempty, if_neg hexit, answer?, Session.run?, if_neg herrors]
        rfl
  | undecodable | finished => cases h

theorem turn_eq_of_isRejected (h : input.isRejected = true)
    (hturn : turn? depth session input = some turn) :
    turn = ⟨.onErr input.reports, some session⟩ :=
  (Option.some.inj ((turn?_of_isRejected h depth session).symm.trans hturn)).symm

theorem session_eq_none_iff (h : turn? depth session input = some turn) :
    turn.session = none ↔ input.closes = true := by
  cases input with
  | line text =>
      rw [turn?_line] at h
      simp only [Input.closes, decide_eq_true_eq]
      split at h
      · next hempty =>
        cases h
        rw [String.isEmpty_iff.mp hempty]
        exact iff_of_false (by simp) (by decide +kernel)
      · split at h
        · next hexit =>
          cases h
          exact iff_of_true rfl hexit
        · next hexit =>
          obtain ⟨result, -, rfl⟩ := Option.map_eq_some_iff.mp h
          exact iff_of_false (by simp) hexit
  | undecodable | finished =>
      cases h
      exact iff_of_true rfl rfl

theorem closes_of_isRejected (h : input.isRejected = true) : ¬ input.closes = true := by
  rw [← session_eq_none_iff (turn?_of_isRejected h 0 Session.new)]
  simp

/-! ## Many rounds -/

/-- The rounds that a list of inputs has: the loop goes on from one input to the next until an input
closes it. -/
inductive Plays (depth : Nat) : Session → List Input → List Round → Prop
  | nil {session : Session} : Plays depth session [] []
  | goesOn {session after : Session} {input : Input} {inputs : List Input} {turn : Turn}
      {rounds : List Round} :
      turn? depth session input = some turn → turn.session = some after →
      Plays depth after inputs rounds →
      Plays depth session (input :: inputs) (⟨input, session, turn⟩ :: rounds)
  | closes {session : Session} {input : Input} {inputs : List Input} {turn : Turn} :
      turn? depth session input = some turn → turn.session = none →
      Plays depth session (input :: inputs) [⟨input, session, turn⟩]

theorem plays_of_rounds? (h : rounds? depth session inputs = some rounds) :
    Plays depth session inputs rounds := by
  induction inputs generalizing session rounds with
  | nil =>
      cases h
      exact .nil
  | cons input inputs ih =>
      obtain ⟨turn, hturn, hrest⟩ := Option.bind_eq_some_iff.mp h
      split at hrest
      · next after hafter =>
        obtain ⟨rest, hrounds, rfl⟩ := Option.map_eq_some_iff.mp hrest
        exact .goesOn hturn hafter (ih hrounds)
      · next hafter =>
        cases hrest
        exact .closes hturn hafter

theorem Plays.rounds?_eq (h : Plays depth session inputs rounds) :
    rounds? depth session inputs = some rounds := by
  induction h with
  | nil => rfl
  | goesOn hturn hafter _ ih =>
      rw [rounds?, hturn, Option.bind_some, hafter]
      simp only [ih, Option.map_some]
  | closes hturn hafter => rw [rounds?, hturn, Option.bind_some, hafter]

theorem append_eq (first second : Console) :
    first ++ second = ⟨first.out ++ second.out, first.err ++ second.err⟩ :=
  rfl

theorem console_eq (round : Round) : .onOut prompt ++ round.turn.console = round.console := by
  simp only [append_eq, Console.onOut, Round.console, String.empty_append]

theorem transcript_cons (round : Round) (rounds : List Round) :
    transcript (round :: rounds) = round.console ++ transcript rounds := by
  simp only [transcript, List.map_cons, String.join_cons, append_eq]

theorem play?_eq (depth : Nat) (session : Session) (inputs : List Input) :
    play? depth session inputs = (rounds? depth session inputs).map transcript := by
  induction inputs generalizing session with
  | nil => rfl
  | cons input inputs ih =>
      rw [play?, rounds?]
      cases turn? depth session input with
      | none => rfl
      | some turn =>
          have hconsole := console_eq ⟨input, session, turn⟩
          obtain ⟨console, after⟩ := turn
          cases after with
          | none =>
              simp only [Option.bind_eq_bind, Option.bind_some, hconsole]
              exact congrArg some (by simp [transcript])
          | some after =>
              simp only [Option.bind_eq_bind, Option.bind_some, hconsole, ih]
              cases rounds? depth after inputs with
              | none => rfl
              | some rounds => exact congrArg some (transcript_cons _ rounds).symm

/-- The rounds are about the inputs, one after another. -/
theorem Plays.round_eq (h : Plays depth session inputs rounds) {i : Nat}
    (hround : rounds[i]? = some round) :
    inputs[i]? = some round.input ∧ turn? depth round.before round.input = some round.turn := by
  induction h generalizing i with
  | nil => cases hround
  | goesOn hturn _ _ ih =>
      cases i with
      | zero =>
          cases hround
          exact ⟨rfl, hturn⟩
      | succ i => exact ih hround
  | closes hturn _ =>
      cases i with
      | zero =>
          cases hround
          exact ⟨rfl, hturn⟩
      | succ i => cases hround

theorem Plays.ne_nil (h : Plays depth session inputs rounds) (hinputs : inputs ≠ []) :
    rounds ≠ [] := by
  cases h with
  | nil => exact absurd rfl hinputs
  | goesOn _ _ _ | closes _ _ => exact List.cons_ne_nil _ _

/-- The loop goes on up to an input that closes it, and not beyond, where the inputs have an end. -/
theorem Plays.closes_iff (h : Plays depth session inputs rounds)
    (hend : inputs.getLast? = some .finished) {i : Nat} (hround : rounds[i]? = some round) :
    round.input.closes = true ↔ i + 1 = rounds.length := by
  induction h generalizing i with
  | nil => cases hround
  | @goesOn session after input inputs turn rounds hturn hafter hplays ih =>
      have hopen : ¬ input.closes = true := by
        rw [← session_eq_none_iff hturn, hafter]
        simp
      have hinputs : inputs ≠ [] := by
        rintro rfl
        cases hend
        exact hopen rfl
      cases i with
      | zero =>
          cases hround
          exact iff_of_false hopen (by simpa using hplays.ne_nil hinputs)
      | succ i =>
          rw [List.length_cons, Nat.add_right_cancel_iff]
          exact ih (by rwa [List.getLast?_cons_of_ne_nil hinputs] at hend) hround
  | closes hturn hafter =>
      cases i with
      | zero =>
          cases hround
          exact iff_of_true ((session_eq_none_iff hturn).mp hafter) rfl
      | succ i => cases hround

/-- A first round that may be left out does not change the session. -/
theorem RejectedAt.turn_eq (h : RejectedAt gone (⟨input, session, turn⟩ :: rounds))
    (h0 : gone 0 = true) (hturn : turn? depth session input = some turn) :
    turn = ⟨.onErr input.reports, some session⟩ := by
  obtain ⟨round, hround, hrejected⟩ := h 0 h0
  cases hround
  exact turn_eq_of_isRejected hrejected hturn

/-- Rejected inputs can be left out. The others are answered as they were. -/
theorem Plays.without (h : Plays depth session inputs rounds)
    (hgone : RejectedAt gone rounds) :
    Plays depth session (without gone inputs) (without gone rounds) := by
  induction h generalizing gone with
  | nil => exact .nil
  | @goesOn session after input inputs turn rounds hturn hafter hplays ih =>
      have hrest := @ih (fun i => gone (i + 1)) fun i hi => hgone (i + 1) hi
      rw [Repl.without, Repl.without]
      by_cases h0 : gone 0 = true
      · obtain rfl := hgone.turn_eq h0 hturn
        cases hafter
        rwa [if_pos h0, if_pos h0]
      · rw [if_neg h0, if_neg h0]
        exact .goesOn hturn hafter hrest
  | @closes session input inputs turn hturn hafter =>
      have h0 : ¬ gone 0 = true := by
        intro h0
        obtain rfl := hgone.turn_eq h0 hturn
        cases hafter
      rw [Repl.without, Repl.without, if_neg h0, if_neg h0]
      exact .closes hturn hafter

theorem getLast?_without (hgone : gone (rounds.length - 1) = false) :
    (without gone rounds).getLast? = rounds.getLast? := by
  cases hrounds : rounds.getLast? with
  | none =>
      rw [List.getLast?_eq_none_iff] at hrounds
      subst hrounds
      rfl
  | some last =>
      obtain ⟨front, rfl⟩ := List.getLast?_eq_some_iff.mp hrounds
      rw [List.length_append, List.length_singleton, Nat.add_sub_cancel] at hgone
      rw [without_append_singleton hgone, List.getLast?_concat]

end ClosureLang.Repl
