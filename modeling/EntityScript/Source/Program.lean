import EntityScript.Program
import EntityScript.Source.Action

/-! # Programs in source text

    program := entity*
    entity  := "entity" NAME "{" ( "has" NAME ":" literal | event )* "}"
    event   := "on" NAME ( "(" ( NAME ( "," NAME )* )? ")" )? "{" action* "}"
    literal := scalar | "pool" "[" ( literal ( "," literal )* )? "]"

Names must differ: those of the entities of a program, and those of the fields and
those of the events of an entity. A repeated name is refused as soon as what bears
it has been read. -/

namespace EntityScript.Source.Parse

/-! ## Fields -/

def literalWith (inner : Parse Value) : Parse Value := fun ts =>
  match scalar? ts with
  | some r => .ok r
  | none =>
    match ts with
    | ⟨.mark .minus, _, _⟩ :: rest => unexpected "number" rest
    | ⟨.keyword .pool, _, _⟩ :: rest => (do
      expect .leftBracket
      return .pool (← listThrough inner .rightBracket) : Parse Value) rest
    | _ => unexpected "literal value" ts

def literalWithin : Nat → Parse Value
  | 0 => unexpected "literal value"
  | depth + 1 => literalWith (literalWithin depth)

def literal : Parse Value := fuelled literalWithin

def field : Parse (String × Value) := do
  let name ← ident "field name"
  expect .colon
  return (name, ← literal)

def event : Parse Event := do
  let name ← ident "event name"
  let params ←
    if ← eat .leftParen then listThrough (ident "parameter name") .rightParen else pure []
  expect .leftBrace
  return ⟨name, params, ← body⟩

/-! ## Entities -/

inductive Member where
  | field (name : String) (value : Value)
  | event (e : Event)
  deriving DecidableEq

def fieldsOf (ms : List Member) : List (String × Value) :=
  ms.filterMap fun
    | .field name value => some (name, value)
    | .event _ => none

def eventsOf (ms : List Member) : List Event :=
  ms.filterMap fun
    | .field _ _ => none
    | .event e => some e

/-- Why a member may not stand behind the members before it. -/
def clash? (entity : String) (before : List Member) : Member → Option Refusal
  | .field name _ =>
    if (fieldsOf before).any fun f => f.1 == name then some (.duplicateField entity name) else none
  | .event e =>
    if (eventsOf before).any fun e' => e'.name == e.name then
      some (.duplicateEvent entity e.name)
    else none

def member : Parse Member := fun ts =>
  match ts with
  | ⟨.keyword .has, _, _⟩ :: rest => (field rest).map fun (f, rest) => (.field f.1 f.2, rest)
  | ⟨.keyword .on, _, _⟩ :: rest => (event rest).map fun (e, rest) => (.event e, rest)
  | _ => unexpected "'has', 'on' or '\x7d'" ts

/-- Members through a closing brace, at most `fuel` of them; `clash?` may refuse
one because of those before it. -/
def membersThrough (clash? : List Member → Member → Option Refusal) :
    Nat → List Member → Parse (List Member)
  | 0, _ => unexpected "'has', 'on' or '\x7d'"
  | fuel + 1, before => do
    if ← eat .rightBrace then
      return before
    let m ← member
    match clash? before m with
    | some refusal => throw refusal
    | none => membersThrough clash? fuel (before ++ [m])

def declaration : Parse Declaration := do
  expectWord .entity
  let name ← ident "entity name"
  expect .leftBrace
  let ms ← fuelled fun fuel => membersThrough (clash? name) fuel []
  return ⟨name, .ofList (fieldsOf ms), eventsOf ms⟩

def declarations : Nat → List Declaration → Parse (List Declaration)
  | 0, _ => unexpected (Token.keyword .entity).text
  | fuel + 1, before => do
    if ← atEnd then
      return before
    let d ← declaration
    if before.any fun d' => d'.name == d.name then
      throw (.duplicateEntity d.name)
    declarations fuel (before ++ [d])

def program : Parse Program := do
  return ⟨← fuelled fun fuel => declarations fuel []⟩

end EntityScript.Source.Parse

namespace EntityScript

def Program.parse (source : String) : Except ScriptFault Program :=
  Source.Parse.program.run source

def Table.parse (source : String) : Except ScriptFault Table := do
  let p ← Program.parse source
  p.toTable.mapError ScriptFault.engine

end EntityScript
