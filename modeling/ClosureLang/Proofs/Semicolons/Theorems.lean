import ClosureLang.Proofs.Locating.Headers
import ClosureLang.Proofs.Locating.Places
import ClosureLang.Proofs.Scanning.Lemmas.Lexemes
import ClosureLang.Proofs.Semicolons.Lemmas.Joints
import ClosureLang.Proofs.Semicolons.Lemmas.Loosening
import ClosureLang.Proofs.Sessions.Lemmas.Joining

/-!
# When a semicolon may be left out

A semicolon with a blank in its place is missed exactly if the token behind it could continue the
statement in front.
-/

namespace ClosureLang

open Grammar

/-! ## Scanning -/

/-- A text with one character between two parts that merges with neither of them. -/
theorem scan_around {c : Char} (hc : isFirm c = true) (front rest : String) :
    scan (front ++ String.singleton c ++ rest) = scan front ++
      ((scan (String.singleton c)).map (Token.placed (shifted front.utf8ByteSize)) ++
        (scan rest).map (Token.placed (shifted (front.utf8ByteSize + c.utf8Size)))) := by
  have hfront : Apart front.toList (String.singleton c).toList := by
    intro d _ e he
    obtain rfl : c = e := by simpa using he
    exact merges_eq_false_of_right hc d
  have hrest : Apart (front ++ String.singleton c).toList rest.toList := by
    intro d hd e _
    obtain rfl : c = d := by simpa using hd
    exact merges_eq_false_of_left hc e
  rw [scan_append hrest, scan_append hfront, String.utf8ByteSize_append,
    String.utf8ByteSize_singleton, List.append_assoc]

def Token.semicolonAt (start : Nat) : Token :=
  ⟨.semicolon, ";", ⟨start, start + 1⟩⟩

theorem scan_semicolon (front rest : String) : scan (front ++ ";" ++ rest) =
    scan front ++ Token.semicolonAt front.utf8ByteSize ::
      (scan rest).map (Token.placed (shifted (front.utf8ByteSize + 1))) := by
  have hscan : scan ";" = [Token.semicolonAt 0] := by decide +kernel
  have h := scan_around (c := ';') (by decide) front rest
  have htoken : (Token.semicolonAt 0).placed (shifted front.utf8ByteSize) =
      Token.semicolonAt front.utf8ByteSize := by
    simp [Token.semicolonAt, Token.placed, shifted, Nat.add_comm]
  rw [show String.singleton ';' = ";" from rfl, hscan, List.map_singleton, htoken] at h
  exact h

theorem scan_blank (front rest : String) : scan (front ++ " " ++ rest) =
    scan front ++ (scan rest).map (Token.placed (shifted (front.utf8ByteSize + 1))) := by
  have hscan : scan " " = [] := by decide +kernel
  have h := scan_around (c := ' ') (by decide) front rest
  rw [show String.singleton ' ' = " " from rfl, hscan] at h
  exact h

theorem notMem_of_nodup {before after : List Token} {token : Token}
    (h : (before ++ token :: after).Nodup) : token ∉ before := by
  have hne := (List.nodup_append.mp h).2.2
  exact fun hmem => hne token hmem token List.mem_cons_self rfl

/-- Where a semicolon is among the tokens of a source, it stands between two parts of the text, and
the tokens around it are theirs. -/
theorem exists_parts {source : String} {before after : List Token} {semicolon : Token}
    (hscan : scan source = before ++ semicolon :: after) (hk : semicolon.kind = .semicolon) :
    ∃ front rest, source = front ++ ";" ++ rest ∧ semicolon.span.start = front.utf8ByteSize ∧
      scan (front ++ " " ++ rest) = before ++ after := by
  have hmem : semicolon ∈ scan source := by simp [hscan]
  obtain ⟨front, rest, htext, hstart, hstop⟩ := Scanner.exists_front semicolon hmem
  have hliteral : semicolon.literal.toList = [';'] := by
    have hlexical := Scanner.lexical_of_mem hmem
    rw [hk] at hlexical
    exact hlexical.eq_of_semicolon
  have htext : source.toList = front ++ semicolon.literal.toList ++ rest := htext
  have hstop : semicolon.span.stop = semicolon.span.start + 1 := by
    rw [hstop, hliteral]
    rfl
  have hstart : semicolon.span.start = (String.ofList front).utf8ByteSize := by
    rw [← byteLength_eq_utf8ByteSize]
    exact hstart.trans (Nat.zero_add _)
  have hsource : source = String.ofList front ++ ";" ++ String.ofList rest := by
    apply String.toList_inj.mp
    simp only [htext, hliteral, String.toList_append, String.toList_ofList]
    rfl
  have htoken : semicolon = Token.semicolonAt (String.ofList front).utf8ByteSize := by
    obtain ⟨kind, literal, start, stop⟩ := semicolon
    obtain rfl : kind = .semicolon := hk
    obtain rfl : literal = ";" := String.toList_inj.mp hliteral
    obtain rfl : stop = start + 1 := hstop
    obtain rfl : start = _ := hstart
    rfl
  have hparts := scan_semicolon (String.ofList front) (String.ofList rest)
  rw [← hsource, hscan, ← htoken] at hparts
  have hnodup := nodup_scan source
  rw [hscan] at hnodup
  have hbefore := notMem_of_nodup hnodup
  rw [hparts] at hnodup
  obtain ⟨rfl, rfl⟩ := append_cons_inj hbefore (notMem_of_nodup hnodup) hparts
  exact ⟨_, _, hsource, hstart, scan_blank _ _⟩

/-! ## Parsing -/

/-- Without the semicolon, a token that could continue the statement in front does so. -/
theorem joints_without_semicolon {before : List Token} {semicolon next : Token}
    (hend : isEnded false (kindsOf before) = true) (hk : semicolon.kind = .semicolon)
    (hnext : next.kind.joins = true) (after : List Token) :
    joints false (kindsOf (before ++ next :: after)) =
      joints false (kindsOf (before ++ semicolon :: next :: after)) + 1 := by
  have hsemicolon : Kind.semicolon.joins = false ∧ Kind.semicolon.isEnd = false := ⟨rfl, rfl⟩
  simp only [kindsOf_append, kindsOf_cons, joints_append, joints, hend, hk, hnext, hsemicolon]
  simp
  omega

/-- If a blank takes the place of a semicolon in a source without syntax errors, the source still
has none and its program is the same, but for the places of its tokens, if and only if the token
behind the semicolon is neither a minus sign nor an opening parenthesis. -/
theorem semicolon_may_go_iff {source : String} (h : (parse source).errors = [])
    {before after : List Token} {semicolon : Token}
    (hscan : scan source = before ++ semicolon :: after) (hk : semicolon.kind = .semicolon) :
    ∃ front rest, source = front ++ ";" ++ rest ∧ semicolon.span.start = front.utf8ByteSize ∧
      ((parse (front ++ " " ++ rest)).errors = [] ∧
          (parse (front ++ " " ++ rest)).program.unplaced = (parse source).program.unplaced ↔
        ∀ next ∈ after.head?, next.kind ≠ .minus ∧ next.kind ≠ .leftParen) := by
  obtain ⟨front, rest, hsource, hstart, hblank⟩ := exists_parts hscan hk
  have hderives := derives_of_errors_eq_nil h
  have hout := Statements.loosens hderives false before semicolon after hscan hk
  refine ⟨front, rest, hsource, hstart, ?_, fun hnext => ?_⟩
  · rintro ⟨herrors, hsame⟩ next hmem
    obtain ⟨more, rfl⟩ : ∃ more, after = next :: more := List.head?_eq_some_iff.mp hmem
    -- Both programs have as many joints, and each has those of its tokens.
    have hjoints : joints false (kindsOf (before ++ next :: more)) =
        joints false (kindsOf (before ++ semicolon :: next :: more)) := by
      rw [← hblank, ← hscan, joints_statements (derives_of_errors_eq_nil herrors),
        joints_statements hderives]
      have hplaced := congrArg (fun program => jointsInStatements program.statements) hsame
      simpa only [Program.unplaced, Program.placed, jointsInStatements_placed] using hplaced
    have hjoins (hjoin : next.kind.joins = true) : False := by
      have hone := joints_without_semicolon hout.ended hk hjoin more
      omega
    exact ⟨fun hminus => hjoins (by rw [hminus]; rfl), fun hparen => hjoins (by rw [hparen]; rfl)⟩
  · have hfresh : StartsAfresh after := by
      intro next hmem
      cases hruns : runsOn next.kind with
      | false => rfl
      | true =>
          rcases hout.mayBegin next hmem hruns with hminus | hparen
          · exact absurd hminus (hnext next hmem).1
          · exact absurd hparen (hnext next hmem).2
    have hkept : Derives (scan (front ++ " " ++ rest)) (parse source).program := by
      rw [hblank]
      exact hout.keeps hfresh
    obtain ⟨herrors, hprogram⟩ := parse_eq_of_derives hkept
    exact ⟨herrors, congrArg Program.unplaced hprogram⟩

theorem semicolon_in_body_may_go : ∃ front rest, "fn(x) { x; y }" = front ++ ";" ++ rest ∧
    (parse (front ++ " " ++ rest)).errors = [] ∧
      (parse (front ++ " " ++ rest)).program.unplaced =
        (parse "fn(x) { x; y }").program.unplaced := by
  have herrors : (parse "fn(x) { x; y }").errors = [] := by decide +kernel
  have hscan : scan "fn(x) { x; y }" = (scan "fn(x) { x; y }").take 6 ++
      Token.semicolonAt 9 :: (scan "fn(x) { x; y }").drop 7 := by decide +kernel
  have hnext : ∀ next ∈ ((scan "fn(x) { x; y }").drop 7).head?,
      next.kind ≠ .minus ∧ next.kind ≠ .leftParen := by decide +kernel
  obtain ⟨front, rest, hsource, -, hiff⟩ := semicolon_may_go_iff herrors hscan rfl
  exact ⟨front, rest, hsource, hiff.mpr hnext⟩

end ClosureLang
