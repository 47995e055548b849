import ClosureLang.Proofs.Placing.Lemmas.Sources
import ClosureLang.Proofs.Scanning.Lemmas.Shifting
import ClosureLang.Proofs.Sessions.Lemmas.Behind
import ClosureLang.Proofs.Sessions.Turns

/-!
# Sources one behind another

A source behind one that ends with a semicolon is parsed as it is on its own, but for the places of
its tokens.
-/

namespace ClosureLang

open Grammar

/-! ## The seam -/

theorem Lexical.eq_of_semicolon {text : List Char} (h : Lexical .semicolon text) :
    text = [';'] := by
  cases h with
  | keyword hmem => exact absurd hmem (by simp [keywords])
  | pair hmem => exact absurd hmem (by simp [signs])
  | symbol hmem =>
      simp only [symbols, List.mem_cons, Prod.mk.injEq, reduceCtorEq, and_false, and_true, or_false,
        false_or, List.not_mem_nil] at hmem
      rw [hmem]

theorem Tiling.eq_nil {offset : Nat} {tokens : List Token} (h : Tiling offset [] tokens) :
    tokens = [] := by
  generalize htext : ([] : List Char) = text at h
  cases h with
  | blanks _ => rfl
  | @token _ blanks kind word rest tokens _ hlongest _ =>
      have hword : word = [] := by simp_all
      exact absurd hword hlongest.lexical.ne_nil

/-- Behind a last semicolon there are only blanks. -/
theorem Tiling.isFirm_last {offset : Nat} {text : List Char} {tokens : List Token}
    (h : Tiling offset text tokens) (hlast : ∀ token ∈ tokens.getLast?, token.kind = .semicolon) :
    ∀ c ∈ text.getLast?, isFirm c = true := by
  induction h with
  | blanks hall =>
      exact fun c hc => isFirm_of_isBlank (isBlank_iff_mem.mpr (hall c (List.mem_of_getLast? hc)))
  | @token offset blanks kind word rest tokens hall hlongest hrest ih =>
      rcases List.eq_nil_or_concat rest with rfl | ⟨front, d, rfl⟩
      · obtain rfl := hrest.eq_nil
        obtain rfl : kind = .semicolon := hlast _ rfl
        obtain rfl := hlongest.lexical.eq_of_semicolon
        intro c hc
        obtain rfl : c = ';' := by simpa using hc.symm
        decide
      · have hbehind : ∀ token ∈ tokens.getLast?, token.kind = .semicolon :=
          fun token htoken => hlast token (by rw [List.getLast?_cons, htoken]; rfl)
        simpa using ih hbehind

theorem Closed.apart {source : String} (h : Closed source) (behind : String) :
    Apart source.toList behind.toList :=
  fun c hc d _ =>
    merges_eq_false_of_left ((Scanner.ofString source).tiling.isFirm_last h.last c hc) d

/-! ## Parsing -/

theorem parse_eq {source : String} {whole : Program} {s : Parser.State}
    (h : Parser.program ((scan source).length + 1) (.ofString source) = .ok whole s) :
    parse source = ⟨whole, s.errors.reverse, s.trace.reverse⟩ := by
  rw [parse, show (Parser.State.ofString source).tokens = scan source from rfl, h]

/-- Behind a closed source, a source is parsed as it is on its own. -/
theorem parse_behind {a : String} (ha : Closed a) (b : String) :
    (parse (a ++ b)).program.statements = (parse a).program.statements ++
        (parse b).program.statements.map (Stmt.placed (shifted a.utf8ByteSize)) ∧
      (parse (a ++ b)).errors =
        (parse b).errors.map (SyntaxError.placed (shifted a.utf8ByteSize)) := by
  have hscan : scan (a ++ b) = scan a ++ (scan b).map (Token.placed (shifted a.utf8ByteSize)) :=
    scan_append (ha.apart b)
  have hlength : (scan (a ++ b)).length = (scan a).length + (scan b).length := by
    rw [hscan, List.length_append, List.length_map]
  have hb : ((Parser.State.ofString b).note (.enter .program)).Below ((scan b).length + 1) :=
    (Parser.State.note_leads _ _).below (Parser.State.below_ofString b)
  obtain ⟨more, s, hmore⟩ : ∃ more s, Parser.statements (Parser.expression _)
      (fun kind => kind = .eof) ((Parser.State.ofString b).note _) = .ok more s :=
    Parser.exists_statements (Parser.sound_expression _) hb (by decide)
  have hmoves : Parser.MovesAll (shifted a.utf8ByteSize) (Parser.expression ((scan b).length + 1))
      (Parser.expression ((scan (a ++ b)).length + 1)) := Parser.moves_expression (by omega)
  obtain ⟨t, hall, hmoved⟩ := Parser.statements_behind
    (s := (Parser.State.ofString b).note (.enter .program))
    (t := (Parser.State.ofString (a ++ b)).note (.enter .program)) hmoves
    (Parser.complete_expression _) (by simp) (derives_of_errors_eq_nil ha.errors) ha.last (by omega)
    hscan (endToken_append a b) rfl hmore
  rw [parse_eq (Parser.program_of_statements hmore), parse_eq (Parser.program_of_statements hall)]
  exact ⟨rfl, by simp only [Parser.State.errors_note, hmoved.errors, List.map_reverse]⟩

/-- A source behind a closed one adds its statements. -/
theorem parse_append {a b : String} (ha : Closed a) (hb : (parse b).errors = []) :
    (parse (a ++ b)).errors = [] ∧ (parse (a ++ b)).program.unplaced.statements =
      (parse a).program.unplaced.statements ++ (parse b).program.unplaced.statements := by
  obtain ⟨hstmts, herrors⟩ := parse_behind ha b
  refine ⟨by rw [herrors, hb, List.map_nil], ?_⟩
  simp only [Program.unplaced, Program.placed, hstmts, placedStatements_eq_map, List.map_append,
    List.map_map]
  congr 1
  exact List.map_congr_left fun stmt _ => Stmt.placed_placed _ _ stmt

/-- Closed sources, joined, have no syntax errors and the statements of all. -/
theorem parse_join {sources : List String} (h : ∀ source ∈ sources, Closed source) :
    (parse (String.join sources)).errors = [] ∧
      (parse (String.join sources)).program.unplaced.statements =
        sources.flatMap fun source => (parse source).program.unplaced.statements := by
  induction sources with
  | nil =>
      have hderives : Derives (scan "") ⟨[]⟩ := by
        rw [scan, Scanner.ofString, String.toList_empty, Scanner.tokens_nil]
        exact .nil
      obtain ⟨hnone, heq⟩ := parse_eq_of_derives hderives
      rw [String.join_nil, heq]
      exact ⟨hnone, rfl⟩
  | cons source sources ih =>
      obtain ⟨hsource, hsources⟩ := List.forall_mem_cons.mp h
      obtain ⟨herrors, hstmts⟩ := ih hsources
      rw [String.join_cons, List.flatMap_cons, ← hstmts]
      exact parse_append hsource herrors

end ClosureLang
