import ClosureLang.Syntax.Tree

/-!
# The grammar

Which lists of tokens are programs, and of which syntax tree. The grammar knows nothing of parsing:
binary operators stand on levels, and a statement may leave its semicolon out where the next token
could not be taken for a part of it.
-/

namespace ClosureLang.Grammar

/-- The levels of expressions, the loosest one first. -/
inductive Level
  | equality
  | relation
  | sum
  | product
  | prefixed
  | call
  | primary
deriving DecidableEq

namespace Level

def rank : Level → Nat
  | equality => 1
  | relation => 2
  | sum => 3
  | product => 4
  | prefixed => 5
  | call => 6
  | primary => 7

/-- The binary operators of a level. -/
def operator? : Level → Kind → Option InfixOp
  | equality, .equal => some .equal
  | equality, .notEqual => some .notEqual
  | relation, .less => some .less
  | relation, .greater => some .greater
  | relation, .lessEqual => some .lessEqual
  | relation, .greaterEqual => some .greaterEqual
  | sum, .plus => some .add
  | sum, .minus => some .subtract
  | product, .asterisk => some .multiply
  | product, .slash => some .divide
  | _, _ => none

end Level

/-- The tokens that may not follow a statement without a semicolon: they would continue its
expression, or be its semicolon. -/
def runsOn : Kind → Bool
  | .equal | .notEqual => true
  | .less | .greater | .lessEqual | .greaterEqual => true
  | .plus | .minus | .asterisk | .slash => true
  | .leftParen => true
  | .semicolon => true
  | _ => false

/-- The names behind the first one, each with a comma in front of it. -/
inductive MoreParameters : List Token → List Identifier → Prop
  | nil : MoreParameters [] []
  | cons {comma name tokens names} :
      comma.kind = .comma → name.kind = .identifier → MoreParameters tokens names →
      MoreParameters (comma :: name :: tokens) (⟨name, name.literal⟩ :: names)

inductive Parameters : List Token → List Identifier → Prop
  | nil : Parameters [] []
  | cons {name tokens names} :
      name.kind = .identifier → MoreParameters tokens names →
      Parameters (name :: tokens) (⟨name, name.literal⟩ :: names)

mutual

/-- The expressions of a level. Those of a tighter level are among them. -/
inductive Expression : Level → List Token → Expr → Prop
  | tighter {level inner tokens expr} :
      level.rank < inner.rank → Expression inner tokens expr → Expression level tokens expr
  | infixed {level inner sign op ls l rs r} :
      level.operator? sign.kind = some op → level.rank < inner.rank →
      Expression level ls l → Expression inner rs r →
      Expression level (ls ++ sign :: rs) (.infixed sign l op r)
  | not {sign tokens expr} :
      sign.kind = .bang → Expression .prefixed tokens expr →
      Expression .prefixed (sign :: tokens) (.prefixed sign .not expr)
  | negate {sign tokens expr} :
      sign.kind = .minus → Expression .prefixed tokens expr →
      Expression .prefixed (sign :: tokens) (.prefixed sign .negate expr)
  | call {opening closing cs callee as args} :
      Expression .call cs callee →
      opening.kind = .leftParen → Arguments as args → closing.kind = .rightParen →
      Expression .call (cs ++ opening :: (as ++ [closing])) (.call opening callee args)
  | identifier {name} :
      name.kind = .identifier → Expression .primary [name] (.identifier ⟨name, name.literal⟩)
  /-- The value is what the digits denote, and so it is in range. -/
  | integer {token} {value : Int64} :
      token.kind = .integer → value.toInt = Nat.ofDigitChars 10 token.literal.toList 0 →
      Expression .primary [token] (.integer token value)
  | true {token} : token.kind = .trueWord → Expression .primary [token] (.boolean token true)
  | false {token} : token.kind = .falseWord → Expression .primary [token] (.boolean token false)
  | grouped {opening closing tokens expr} :
      opening.kind = .leftParen → Expression .equality tokens expr → closing.kind = .rightParen →
      Expression .primary (opening :: (tokens ++ [closing])) expr
  | conditional {word opening closing cs condition bs consequence} :
      word.kind = .ifWord →
      opening.kind = .leftParen → Expression .equality cs condition → closing.kind = .rightParen →
      Body bs consequence →
      Expression .primary (word :: opening :: (cs ++ closing :: bs))
        (.conditional word condition consequence none)
  | alternative {word opening closing other cs condition bs consequence as alternative} :
      word.kind = .ifWord →
      opening.kind = .leftParen → Expression .equality cs condition → closing.kind = .rightParen →
      Body bs consequence → other.kind = .elseWord → Body as alternative →
      Expression .primary (word :: opening :: (cs ++ closing :: (bs ++ other :: as)))
        (.conditional word condition consequence (some alternative))
  | function {word opening closing ps names bs body} :
      word.kind = .fnWord →
      opening.kind = .leftParen → Parameters ps names → closing.kind = .rightParen →
      Body bs body →
      Expression .primary (word :: opening :: (ps ++ closing :: bs)) (.function word names body)

inductive Arguments : List Token → List Expr → Prop
  | nil : Arguments [] []
  | cons {tokens arg rest args} :
      Expression .equality tokens arg → MoreArguments rest args →
      Arguments (tokens ++ rest) (arg :: args)

/-- The arguments behind the first one, each with a comma in front of it. -/
inductive MoreArguments : List Token → List Expr → Prop
  | nil : MoreArguments [] []
  | cons {comma tokens arg rest args} :
      comma.kind = .comma → Expression .equality tokens arg → MoreArguments rest args →
      MoreArguments (comma :: (tokens ++ rest)) (arg :: args)

/-- A block: statements in braces. -/
inductive Body : List Token → Block → Prop
  | braces {opening closing tokens stmts} :
      opening.kind = .leftBrace → Statements tokens stmts → closing.kind = .rightBrace →
      Body (opening :: (tokens ++ [closing])) ⟨opening, stmts⟩

/-- A statement without the semicolon that may end it. -/
inductive Statement : List Token → Stmt → Prop
  | letStmt {word name sign tokens value} :
      word.kind = .letWord → name.kind = .identifier → sign.kind = .assign →
      Expression .equality tokens value →
      Statement (word :: name :: sign :: tokens) (.letStmt word ⟨name, name.literal⟩ value)
  | returnStmt {word tokens value} :
      word.kind = .returnWord → Expression .equality tokens value →
      Statement (word :: tokens) (.returnStmt word value)
  | exprStmt {first tokens expr} :
      Expression .equality (first :: tokens) expr →
      Statement (first :: tokens) (.exprStmt first expr)

inductive Statements : List Token → List Stmt → Prop
  | nil : Statements [] []
  | ended {tokens stmt semicolon rest stmts} :
      Statement tokens stmt → semicolon.kind = .semicolon → Statements rest stmts →
      Statements (tokens ++ semicolon :: rest) (stmt :: stmts)
  | unended {tokens stmt rest stmts} :
      Statement tokens stmt → (∀ next ∈ rest.head?, runsOn next.kind = false) →
      Statements rest stmts →
      Statements (tokens ++ rest) (stmt :: stmts)

end

/-- The tokens of a program, without the end of the source. -/
def Derives (tokens : List Token) (program : Program) : Prop :=
  Statements tokens program.statements

end ClosureLang.Grammar
