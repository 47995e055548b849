import ClosureLang.Proofs.Placing.Alike
import ClosureLang.Proofs.Placing.Lemmas.Parsing
import ClosureLang.Proofs.Provenance.Lemmas.Rules
import ClosureLang.Proofs.Scanning.Theorems
import Mathlib.Data.List.Forall2

/-!
# Sources with the same words

Moving the tokens of such sources makes them the same. Moved to one place, that leaves the programs;
moved each to its position among the tokens, the tokens that are blamed.
-/

namespace ClosureLang

variable {place place' : Token → Span}

/-! ## Texts of what is placed elsewhere -/

theorem names_placed (names : List Identifier) :
    (names.map (Identifier.placed place)).map Identifier.name = names.map Identifier.name := by
  rw [List.map_map]
  rfl

mutual

theorem Stmt.render_placed (stmt : Stmt) : (stmt.placed place).render = stmt.render := by
  match stmt with
  | .letStmt _ _ value => simp only [Stmt.placed, Stmt.render, value.render_placed]; rfl
  | .returnStmt _ value => simp only [Stmt.placed, Stmt.render, value.render_placed]; rfl
  | .exprStmt _ expr => simp only [Stmt.placed, Stmt.render, expr.render_placed]

theorem renderStatements_placed (stmts : List Stmt) :
    renderStatements (placedStatements place stmts) = renderStatements stmts := by
  match stmts with
  | [] => rfl
  | stmt :: stmts =>
      simp only [placedStatements, renderStatements, stmt.render_placed,
        renderStatements_placed stmts]

theorem Block.render_placed (block : Block) : (block.placed place).render = block.render := by
  match block with
  | ⟨_, stmts⟩ => simp only [Block.placed, Block.render, renderStatements_placed stmts]

theorem Expr.render_placed (expr : Expr) : (expr.placed place).render = expr.render := by
  match expr with
  | .identifier _ | .integer _ _ | .boolean _ _ => rfl
  | .prefixed _ _ right => simp only [Expr.placed, Expr.render, right.render_placed]
  | .infixed _ left _ right =>
      simp only [Expr.placed, Expr.render, left.render_placed, right.render_placed]
  | .conditional _ condition consequence alternative =>
      simp only [Expr.placed, Expr.render, condition.render_placed, consequence.render_placed,
        renderAlternative_placed alternative]
  | .function _ names body =>
      simp only [Expr.placed, Expr.render, names_placed, body.render_placed]; rfl
  | .call _ callee arguments =>
      simp only [Expr.placed, Expr.render, callee.render_placed, renderAll_placed arguments]

theorem renderAlternative_placed (alternative : Option Block) :
    renderAlternative (placedAlternative place alternative) = renderAlternative alternative := by
  match alternative with
  | none => rfl
  | some block => simp only [placedAlternative, renderAlternative, block.render_placed]

theorem renderAll_placed (exprs : List Expr) :
    renderAll (placedAll place exprs) = renderAll exprs := by
  match exprs with
  | [] => rfl
  | expr :: exprs =>
      simp only [placedAll, renderAll, expr.render_placed, renderAll_placed exprs]

end

theorem Object.inspect_placed (object : Object) :
    (object.placed place).inspect = object.inspect := by
  induction object with
  | function id closure =>
      simp only [Object.placed, Closure.placed, Object.inspect, names_placed, Block.render_placed]
  | returned id inner ih => exact ih
  | _ => rfl

theorem Object.errorMessage?_placed (object : Object) :
    (object.placed place).errorMessage? = object.errorMessage? := by
  cases object <;> rfl

theorem SyntaxError.message_placed (error : SyntaxError) :
    (error.placed place).message = error.message := by
  obtain ⟨blamed, cause⟩ := error
  cases cause <;> rfl

/-! ## Syntax errors -/

theorem stream_words {a b : String} (h : words a = words b) :
    (stream a).map Token.word = (stream b).map Token.word := by
  simp only [stream, List.map_append]
  exact congrArg (· ++ [(Kind.eof, "")]) h

theorem mem_stream {source : String} {token : Token} (h : token.IsOf source) :
    token ∈ stream source := by
  rcases h with hmem | rfl
  · exact List.mem_append_left _ hmem
  · exact List.mem_append_right _ (List.mem_singleton_self _)

/-- A token of a source has one position. -/
theorem nodup_stream (source : String) : (stream source).Nodup := by
  have htiling := (Scanner.ofString source).tiling
  have hscan : (scan source).Nodup := htiling.pairwise.imp_of_mem fun {t u} ht hu hle heq => by
    have hlt := (htiling.bounds u hu).2
    rw [heq] at hle
    omega
  refine List.nodup_append.mpr ⟨hscan, by simp, ?_⟩
  intro token hmem other hend heq
  rw [heq, List.mem_singleton.mp hend] at hmem
  exact Scanner.kind_ne_eof _ _ hmem rfl

theorem nodup_scan (source : String) : (scan source).Nodup :=
  (List.nodup_append.mp (nodup_stream source)).1

/-- The position of a token, as a place. -/
def position (source : String) (token : Token) : Span :=
  ⟨(stream source).idxOf token, 0⟩

theorem stream_position {a b : String} (h : words a = words b) :
    (stream a).map (Token.placed (position a)) = (stream b).map (Token.placed (position b)) := by
  have hwords := stream_words h
  have hlength : (stream a).length = (stream b).length := by
    simpa using congrArg List.length hwords
  refine List.ext_getElem (by simpa using hlength) fun i ha hb => ?_
  rw [List.length_map] at ha hb
  have hword : (stream a)[i].word = (stream b)[i].word := by
    have hget := List.getElem_of_eq hwords (i := i) (by simpa using ha)
    rwa [List.getElem_map, List.getElem_map] at hget
  have hkind : (stream a)[i].kind = (stream b)[i].kind := congrArg Prod.fst hword
  have hliteral : (stream a)[i].literal = (stream b)[i].literal := congrArg Prod.snd hword
  rw [List.getElem_map, List.getElem_map, Token.placed, Token.placed, position, position,
    (nodup_stream a).idxOf_getElem i ha, (nodup_stream b).idxOf_getElem i hb, hkind, hliteral]

theorem SyntaxError.alike_of_position {a b : String} {error error' : SyntaxError}
    (ha : error.blamed.IsOf a) (hb : error'.blamed.IsOf b)
    (h : error.placed (position a) = error'.placed (position b)) : error.Alike a b error' := by
  have hmessage : error.message = error'.message := by
    rw [← error.message_placed, h, error'.message_placed]
  have hblamed : error.blamed.placed (position a) = error'.blamed.placed (position b) :=
    congrArg SyntaxError.blamed h
  have hindex : (stream a).idxOf error.blamed = (stream b).idxOf error'.blamed :=
    congrArg (fun token => token.span.start) hblamed
  have hposition : (stream b)[(stream a).idxOf error.blamed]? = some error'.blamed := by
    rw [hindex]
    exact List.getElem?_idxOf (mem_stream hb)
  refine ⟨hmessage, ⟨_, List.getElem?_idxOf (mem_stream ha), hposition⟩, ?_⟩
  obtain ⟨blamed, cause⟩ := error
  obtain ⟨blamed', cause'⟩ := error'
  have hkind : blamed.kind = blamed'.kind :=
    congrArg (fun error => error.blamed.kind) h
  have hliteral : blamed.literal = blamed'.literal :=
    congrArg (fun error => error.blamed.literal) h
  have hcause : cause.placed (position a) = cause'.placed (position b) :=
    congrArg SyntaxError.cause h
  cases cause <;> cases cause' <;>
    simp only [SyntaxError.Cause.placed, reduceCtorEq, SyntaxError.Cause.expected.injEq] at hcause
  case expected.expected => exact .inl (by rw [help, help, hcause.2])
  case cannotStart.cannotStart => exact .inl (by simp only [help, hkind, hliteral])
  case outOfRange.outOfRange => exact .inl rfl
  case unclosed.unclosed => exact .inr ⟨_, _, rfl, rfl⟩

theorem stream_unplaced {a b : String} (h : words a = words b) :
    (stream a).map (Token.placed nowhere) = (stream b).map (Token.placed nowhere) := by
  have hword : Token.placed nowhere =
      (fun word : Kind × String => ⟨word.1, word.2, ⟨0, 0⟩⟩) ∘ Token.word := rfl
  rw [hword, ← List.map_map, ← List.map_map, stream_words h]

/-! ## Parsing -/

/-- What the parser makes of a state. -/
def parsedFrom (depth : Nat) (s : Parser.State) : Program × List SyntaxError :=
  match Parser.program depth s with
  | .ok program s => (program, s.errors.reverse)
  | .error _ s => (⟨[]⟩, s.errors.reverse)

theorem length_stream (source : String) : (stream source).length = (scan source).length + 1 :=
  List.length_append

theorem below_stream (source : String) :
    (Parser.State.ofString source).Below (stream source).length := by
  rw [length_stream]
  exact Parser.State.below_ofString source

theorem parse_eq_parsedFrom (source : String) : ((parse source).program, (parse source).errors) =
    parsedFrom ((stream source).length) (.ofString source) := by
  rw [length_stream, parse, parsedFrom]
  dsimp only [Parser.State.ofString]
  cases Parser.program ((scan source).length + 1) ⟨scan source, endToken source, [], []⟩ <;> rfl

theorem parsedFrom_placed {s t : Parser.State} (h : s.Moves place t) {depth : Nat}
    (hs : s.Below depth) :
    parsedFrom depth t = ((parsedFrom depth s).1.placed place,
      (parsedFrom depth s).2.map (SyntaxError.placed place)) := by
  have hout := Parser.outcome_program hs
  rcases Parser.moves_program (Nat.le_refl depth) s t h with ⟨s', hexhausted⟩ | hprogram
  · rw [hexhausted] at hout
    cases hout
  · rw [parsedFrom, parsedFrom]
    generalize Parser.program depth s = r at hprogram ⊢
    generalize Parser.program depth t = r' at hprogram ⊢
    cases hprogram with
    | ok h => simp only [h.errors, List.map_reverse]
    | error h => simp only [h.errors, List.map_reverse, Program.placed, placedStatements]

/-- If moving the tokens of two sources makes them the same, it does so for what is parsed. -/
theorem parse_placed {a b : String}
    (h : (stream a).map (Token.placed place) = (stream b).map (Token.placed place')) :
    (parse a).program.placed place = (parse b).program.placed place' ∧
      (parse a).errors.map (SyntaxError.placed place) =
        (parse b).errors.map (SyntaxError.placed place') := by
  have hlength : (stream a).length = (stream b).length := by simpa using congrArg List.length h
  simp only [stream, List.map_append, List.map_cons, List.map_nil] at h
  obtain ⟨htokens, hfinish⟩ := List.append_inj' h rfl
  let moved : Parser.State :=
    ⟨(scan a).map (Token.placed place), (endToken a).placed place, [], []⟩
  have ha := parsedFrom_placed (s := .ofString a) (t := moved) ⟨rfl, rfl, rfl⟩ (below_stream a)
  have hb := parsedFrom_placed (s := .ofString b) (t := moved)
    ⟨htokens, List.head_eq_of_cons_eq hfinish, rfl⟩ (below_stream b)
  rw [← parse_eq_parsedFrom] at ha hb
  rw [hlength, hb] at ha
  exact ⟨(congrArg Prod.fst ha).symm, (congrArg Prod.snd ha).symm⟩

theorem errors_alike {a b : String} (h : words a = words b) :
    List.Forall₂ (SyntaxError.Alike a b) (parse a).errors (parse b).errors := by
  have herrors := (parse_placed (stream_position h)).2
  have hlength : (parse a).errors.length = (parse b).errors.length := by
    simpa using congrArg List.length herrors
  refine List.forall₂_iff_get.mpr ⟨hlength, fun i ha hb => ?_⟩
  refine SyntaxError.alike_of_position ((parse_within_source a).2 _ (List.get_mem _ _))
    ((parse_within_source b).2 _ (List.get_mem _ _)) ?_
  have hget := List.getElem_of_eq herrors (i := i) (by simpa using ha)
  rwa [List.getElem_map, List.getElem_map] at hget

end ClosureLang
