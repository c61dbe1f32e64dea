import EntityScript.Expr
import EntityScript.Source.Parse

/-! # Expressions in source text

    expr       := and ( "or" and )*
    and        := not ( "and" not )*
    not        := "not" not | comparison
    comparison := sum ( ( "==" | "!=" | "<" | ">" | "<=" | ">=" ) sum )*
    sum        := product ( ( "+" | "-" ) product )*
    product    := term ( ( "*" | "/" | "%" ) term )*
    term       := scalar | "-" term | "(" expr ")" | NAME "." NAME "[" expr "]"
                | NAME "[" expr "]" | NAME "." NAME | NAME
    scalar     := "-"? NUMBER | STRING | "true" | "false" | "null"

Each level is a reader made from the one below. Only a term can hold a whole
expression again, and then behind a bracket of its own, so the number of tokens
bounds the nesting. -/

namespace EntityScript.Source.Parse

def scalar? : List Spanned → Option (Value × List Spanned)
  | ⟨.number n, _, _⟩ :: rest => some (.number n, rest)
  | ⟨.mark .minus, _, _⟩ :: ⟨.number n, _, _⟩ :: rest => some (.number (-n), rest)
  | ⟨.string s, _, _⟩ :: rest => some (.string s, rest)
  | ⟨.keyword .trueLiteral, _, _⟩ :: rest => some (.bool true, rest)
  | ⟨.keyword .falseLiteral, _, _⟩ :: rest => some (.bool false, rest)
  | ⟨.keyword .nullLiteral, _, _⟩ :: rest => some (.null, rest)
  | _ => none

/-! ## Levels -/

/-- More operands of a chain, each behind an operator, at most `fuel` of them. -/
def chainRest (op? : Token → Option (Expr → Expr → Expr)) (operand : Parse Expr) :
    Nat → Expr → Parse Expr
  | 0, left => pure left
  | fuel + 1, left => fun ts =>
    match ts with
    | [] => .ok (left, ts)
    | s :: rest =>
      match op? s.token with
      | none => .ok (left, ts)
      | some join => (do
        let right ← operand
        chainRest op? operand fuel (join left right)) rest

def chain (op? : Token → Option (Expr → Expr → Expr)) (operand : Parse Expr) :
    Parse Expr := do
  let left ← operand
  fuelled fun fuel => chainRest op? operand fuel left

def orOp? : Token → Option (Expr → Expr → Expr)
  | .keyword .or => some (.logic .or)
  | _ => none

def andOp? : Token → Option (Expr → Expr → Expr)
  | .keyword .and => some (.logic .and)
  | _ => none

def comparisonOp? : Token → Option (Expr → Expr → Expr)
  | .mark .equalTo => some (.binary .eq)
  | .mark .notEqualTo => some (.binary .ne)
  | .mark .less => some (.binary .lt)
  | .mark .greater => some (.binary .gt)
  | .mark .atMost => some (.binary .le)
  | .mark .atLeast => some (.binary .ge)
  | _ => none

def sumOp? : Token → Option (Expr → Expr → Expr)
  | .mark .plus => some (.binary .add)
  | .mark .minus => some (.binary .sub)
  | _ => none

def productOp? : Token → Option (Expr → Expr → Expr)
  | .mark .star => some (.binary .mul)
  | .mark .slash => some (.binary .div)
  | .mark .percent => some (.binary .mod)
  | _ => none

def negation (operand : Parse Expr) : List Spanned → Except Refusal (Expr × List Spanned)
  | ⟨.keyword .not, _, _⟩ :: rest => (negation operand rest).map fun (e, rest) => (.not e, rest)
  | ts => operand ts

def indexRest (inner : Parse Expr) (pool : String) : Parse Expr := do
  let e ← inner
  expect .rightBracket
  return .index pool e

/-- What starts with a name. A second name before an index is read and left out. -/
def named (inner : Parse Expr) (name : String) : Parse Expr := fun ts =>
  match ts with
  | ⟨.mark .dot, _, _⟩ :: ⟨.ident _, _, _⟩ :: ⟨.mark .leftBracket, _, _⟩ :: rest =>
    indexRest inner name rest
  | ⟨.mark .leftBracket, _, _⟩ :: rest => indexRest inner name rest
  | ⟨.mark .dot, _, _⟩ :: rest =>
    (ident "property name" rest).map fun (property, rest) => (.property name property, rest)
  | _ => .ok (.var name, ts)

/-- A term. A minus that is not the sign of a number takes the term from zero. -/
def term (inner : Parse Expr) (ts : List Spanned) : Except Refusal (Expr × List Spanned) :=
  match scalar? ts with
  | some (v, rest) => .ok (.literal v, rest)
  | none =>
    match ts with
    | ⟨.mark .minus, _, _⟩ :: rest =>
      (term inner rest).map fun (e, rest) => (.binary .sub (.literal (.number 0.0)) e, rest)
    | ⟨.mark .leftParen, _, _⟩ :: rest => (do
      let e ← inner
      expect .rightParen
      return e : Parse Expr) rest
    | ⟨.ident name, _, _⟩ :: rest => named inner name rest
    | _ => unexpected "expression" ts

/-- An expression, where `inner` reads the expressions inside brackets. -/
def exprWith (inner : Parse Expr) : Parse Expr :=
  chain orOp? (chain andOp? (negation (chain comparisonOp? (chain sumOp? (chain productOp?
    (term inner))))))

def exprWithin : Nat → Parse Expr
  | 0 => unexpected "expression"
  | depth + 1 => exprWith (exprWithin depth)

def expr : Parse Expr := fuelled exprWithin

def wholeExpr : Parse Expr := do
  let e ← expr
  unless ← atEnd do
    unexpected "end of input"
  return e

end EntityScript.Source.Parse

namespace EntityScript

def Expr.parse (source : String) : Except ScriptFault Expr :=
  Source.Parse.wholeExpr.run source

end EntityScript
