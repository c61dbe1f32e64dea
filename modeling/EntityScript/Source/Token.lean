import EntityScript.Number.Text
import EntityScript.Text.Quoted

/-! # Tokens

The words, marks and literals of a program text. -/

namespace EntityScript.Source

inductive Keyword where
  | entity
  | has
  | on
  | emit
  | when
  | unwhen
  | check
  | pool
  | and
  | or
  | not
  | trueLiteral
  | falseLiteral
  | nullLiteral
  deriving DecidableEq, Repr

namespace Keyword

def all : List Keyword :=
  [.entity, .has, .on, .emit, .when, .unwhen, .check, .pool, .and, .or, .not,
   .trueLiteral, .falseLiteral, .nullLiteral]

def text : Keyword → String
  | .entity => "entity"
  | .has => "has"
  | .on => "on"
  | .emit => "emit"
  | .when => "when"
  | .unwhen => "unwhen"
  | .check => "check"
  | .pool => "pool"
  | .and => "and"
  | .or => "or"
  | .not => "not"
  | .trueLiteral => "true"
  | .falseLiteral => "false"
  | .nullLiteral => "null"

def ofWord? (w : String) : Option Keyword :=
  all.find? fun k => k.text == w

end Keyword

inductive Mark where
  | leftBrace
  | rightBrace
  | leftParen
  | rightParen
  | leftBracket
  | rightBracket
  | comma
  | colon
  | dot
  | arrow
  | equalTo
  | notEqualTo
  | atMost
  | atLeast
  | less
  | greater
  | assign
  | plus
  | minus
  | star
  | slash
  | percent
  deriving DecidableEq, Repr

def Mark.text : Mark → String
  | .leftBrace => "\x7b"
  | .rightBrace => "\x7d"
  | .leftParen => "("
  | .rightParen => ")"
  | .leftBracket => "["
  | .rightBracket => "]"
  | .comma => ","
  | .colon => ":"
  | .dot => "."
  | .arrow => "->"
  | .equalTo => "=="
  | .notEqualTo => "!="
  | .atMost => "<="
  | .atLeast => ">="
  | .less => "<"
  | .greater => ">"
  | .assign => "="
  | .plus => "+"
  | .minus => "-"
  | .star => "*"
  | .slash => "/"
  | .percent => "%"

inductive Token where
  | keyword (k : Keyword)
  | mark (m : Mark)
  | number (n : Float)
  | string (s : String)
  | ident (name : String)
  deriving Repr, Inhabited

namespace Token

def text : Token → String
  | .keyword k => "'" ++ k.text ++ "'"
  | .mark m => "'" ++ m.text ++ "'"
  | .number n => "number " ++ Number.text n
  | .string s => "string " ++ Text.quoted s
  | .ident name => "identifier '" ++ name ++ "'"

def isWord : Token → Bool
  | .keyword _ => true
  | .ident _ => true
  | _ => false

def isNumber : Token → Bool
  | .number _ => true
  | _ => false

end Token

/-- A token with the bytes of the source that it covers: from `start` up to but
not including `stop`. -/
structure Spanned where
  token : Token
  start : Nat
  stop : Nat
  deriving Repr, Inhabited

end EntityScript.Source
