namespace Iloc

namespace Token

inductive Kind where
  | opcode
  | register
  | constant
  | comma
  | arrow
  | comment
  deriving DecidableEq, Repr

def Kind.name : Kind → String
  | .opcode => "OPCODE"
  | .register => "REGISTER"
  | .constant => "CONSTANT"
  | .comma => "COMMA"
  | .arrow => "ASSIGN_ARROW"
  | .comment => "COMMENT"

end Token

structure Token where
  line : Nat
  kind : Token.Kind
  lexeme : String
  deriving DecidableEq, Repr

namespace Token

def text (t : Token) : String := toString t.line ++ " " ++ t.kind.name ++ " " ++ t.lexeme

def withoutComments (tokens : List Token) : List Token := tokens.filter (·.kind ≠ .comment)

end Token

end Iloc
