import ClosureLang.Proofs.Interacting.Lemmas.Rounds

/-!
# Rejected lines

A line that the interactive loop rejects leaves its reports on standard error, and nothing else.
-/

namespace ClosureLang.Repl

variable {depth : Nat} {bytes : ByteArray} {rounds : List Round} {gone : Nat → Bool}

theorem run?_eq (depth : Nat) (bytes : ByteArray) :
    run? depth bytes = (rounds? depth Session.new (inputs bytes)).map
      fun rounds => .onOut greeting ++ transcript rounds := by
  rw [run?, play?_eq, Option.map_map]
  rfl

/-- Only lines are rejected, and not the end of the stream. -/
theorem inputs_withoutLines (h : rounds? depth Session.new (inputs bytes) = some rounds)
    (hgone : RejectedAt gone rounds) :
    inputs (withoutLines gone bytes) = without gone (inputs bytes) := by
  have hend : gone ((splitLines bytes.toList).map Input.ofBytes).length = false := by
    apply Bool.eq_false_iff.mpr
    intro htrue
    obtain ⟨round, hround, hrejected⟩ := hgone _ htrue
    have hinput := ((plays_of_rounds? h).round_eq hround).1
    rw [inputs, List.getElem?_concat_length] at hinput
    rw [← Option.some.inj hinput] at hrejected
    cases hrejected
  rw [inputs, inputs, splitLines_withoutLines, map_without, without_append_singleton hend]

/-- The stream without some of its lines is answered like the whole one, without the rounds of these
lines. -/
structure Unaffected (depth : Nat) (bytes : ByteArray) (rounds : List Round) (gone : Nat → Bool) :
    Prop where
  rounds_eq :
    rounds? depth Session.new (inputs (withoutLines gone bytes)) = some (without gone rounds)
  console_eq : run? depth (withoutLines gone bytes) =
    some (.onOut greeting ++ transcript (without gone rounds))
  silent : ∀ i, gone i = true → ∀ round ∈ rounds[i]?,
    round.turn = ⟨.onErr round.input.reports, some round.before⟩
  last : (without gone rounds).getLast? = rounds.getLast?

/-- Lines that are rejected can be deleted. Each one takes its prompt and its reports with it. All
other lines are answered the same in the same session, and the loop ends at the same input, which is
the first one that closes it. -/
theorem rejected_lines_leave_no_trace {console : Console} (h : run? depth bytes = some console) :
    ∃ rounds, rounds? depth Session.new (inputs bytes) = some rounds ∧ rounds ≠ [] ∧
      console = .onOut greeting ++ transcript rounds ∧
      (∀ i round, rounds[i]? = some round →
        (round.input.closes = true ↔ i + 1 = rounds.length)) ∧
      (∀ text : String, bytes = text.toUTF8 → ∀ round ∈ rounds, round.input ≠ .undecodable) ∧
      ∀ gone, RejectedAt gone rounds → Unaffected depth bytes rounds gone := by
  rw [run?_eq] at h
  obtain ⟨rounds, hrounds, rfl⟩ := Option.map_eq_some_iff.mp h
  have hplays := plays_of_rounds? hrounds
  have hcloses {i : Nat} {round : Round} (hround : rounds[i]? = some round) :
      round.input.closes = true ↔ i + 1 = rounds.length :=
    hplays.closes_iff List.getLast?_concat hround
  refine ⟨rounds, hrounds, hplays.ne_nil (by simp [inputs]), rfl, fun i round => hcloses, ?_, ?_⟩
  · rintro text rfl round hmem hinput
    obtain ⟨i, hround⟩ := List.mem_iff_getElem?.mp hmem
    have hmem := List.mem_of_getElem? (hplays.round_eq hround).1
    rw [hinput] at hmem
    exact undecodable_not_mem_inputs text hmem
  · intro gone hgone
    have hwithout : rounds? depth Session.new (inputs (withoutLines gone bytes)) =
        some (without gone rounds) := by
      rw [inputs_withoutLines hrounds hgone]
      exact (hplays.without hgone).rounds?_eq
    have hlast : gone (rounds.length - 1) = false := by
      apply Bool.eq_false_iff.mpr
      intro htrue
      obtain ⟨round, hround, hrejected⟩ := hgone _ htrue
      have hpos : 0 < rounds.length := List.length_pos_iff.mpr (hplays.ne_nil (by simp [inputs]))
      exact closes_of_isRejected hrejected ((hcloses hround).mpr (Nat.sub_add_cancel hpos))
    refine ⟨hwithout, ?_, ?_, getLast?_without hlast⟩
    · rw [run?_eq, hwithout]
      rfl
    · intro i hi round hround
      obtain ⟨round', hround', hrejected⟩ := hgone i hi
      obtain rfl := Option.some.inj (hround'.symm.trans hround)
      exact turn_eq_of_isRejected hrejected (hplays.round_eq hround).2

/-- A session with a blank line and a line that is not a program between two that belong together,
and a line behind the one that closes it. -/
def visit : ByteArray :=
  "let a = 2;\n \nlet b 3;\na + 1\n eXit \na\n".toUTF8

/-- Its second and its third line are deleted. -/
theorem visit_without_rejected_lines :
    ∃ rounds, rounds.length = 5 ∧ RejectedAt (fun i => i == 1 || i == 2) rounds ∧
      withoutLines (fun i => i == 1 || i == 2) visit = "let a = 2;\na + 1\n eXit \na\n".toUTF8 ∧
      run? 0 visit = some (.onOut greeting ++ transcript rounds) ∧
      Unaffected 0 visit rounds (fun i => i == 1 || i == 2) := by
  have hsome : (run? 0 visit).isSome = true := by decide +kernel
  obtain ⟨console, hconsole⟩ := Option.isSome_iff_exists.mp hsome
  obtain ⟨rounds, hrounds, -, rfl, -, -, hall⟩ := rejected_lines_leave_no_trace hconsole
  have hcheck : (rounds? 0 Session.new (inputs visit)).any (fun rounds => rounds.length == 5 &&
      [1, 2].all fun i => rounds[i]?.any (·.input.isRejected)) = true := by decide +kernel
  rw [hrounds, Option.any_some, Bool.and_eq_true, List.all_eq_true] at hcheck
  have hrejected : RejectedAt (fun i => i == 1 || i == 2) rounds := by
    intro i hi
    exact (Option.any_eq_true ..).mp (hcheck.2 i (by simpa using hi))
  exact ⟨rounds, eq_of_beq hcheck.1, hrejected, by decide +kernel, hconsole, hall _ hrejected⟩

end ClosureLang.Repl
