import ClosureLang.Proofs.Locating.Places
import ClosureLang.Proofs.Placing.Placed

/-!
# Scanning further on

The tokens of a text that stands behind another one.
-/

namespace ClosureLang

theorem Scanner.tokens_shifted (text : List Char) (offset bytes : Nat) :
    tokens ⟨text, offset + bytes⟩ = (tokens ⟨text, offset⟩).map (Token.placed (shifted bytes)) := by
  match text with
  | [] => rw [tokens_nil, tokens_nil, List.map_nil]
  | c :: rest =>
      cases hc : isBlank c with
      | true =>
          rw [tokens_blank hc, tokens_blank hc, Nat.add_right_comm, tokens_shifted rest]
      | false =>
          have hlt : (rest.drop (lexeme c rest).2.length).length < (c :: rest).length := by
            rw [List.length_drop, List.length_cons]; omega
          rw [tokens_cons hc, tokens_cons hc, List.map_cons, Nat.add_right_comm,
            tokens_shifted (rest.drop _)]
          rfl
termination_by text.length

theorem scan_append {a b : String} (h : Apart a.toList b.toList) :
    scan (a ++ b) = scan a ++ (scan b).map (Token.placed (shifted a.utf8ByteSize)) := by
  rw [scan, Scanner.ofString, String.toList_append, Scanner.tokens_append h, Scanner.tokens_shifted,
    byteLength_eq_utf8ByteSize, String.ofList_toList]
  rfl

theorem endToken_append (a b : String) :
    endToken (a ++ b) = (endToken b).placed (shifted a.utf8ByteSize) := by
  rw [endToken, String.utf8ByteSize_append, Nat.add_comm]
  exact congrArg (fun stop => Token.mk .eof "" ⟨_, stop⟩) (Nat.add_right_comm ..)

end ClosureLang
