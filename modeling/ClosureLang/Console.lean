/-!
# What a program writes
-/

namespace ClosureLang

/-- The texts on standard output and on standard error. -/
structure Console where
  out : String
  err : String

namespace Console

def empty : Console :=
  ⟨"", ""⟩

def onOut (text : String) : Console :=
  ⟨text, ""⟩

def onErr (text : String) : Console :=
  ⟨"", text⟩

instance : Append Console :=
  ⟨fun a b => ⟨a.out ++ b.out, a.err ++ b.err⟩⟩

end Console

end ClosureLang
