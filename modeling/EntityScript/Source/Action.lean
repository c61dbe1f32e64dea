import EntityScript.Action
import EntityScript.Source.Expr

/-! # Actions in source text

    action := "{" action* "}"
            | "check" expr ( ":" action | "{" action* "}" )?
            | "emit" NAME ( "." NAME ){0,2} args? ( "->" slot )?
            | "when" NAME "." NAME ":" NAME args?
            | "unwhen" NAME "." NAME ":" NAME
            | expr "->" slot
    slot   := NAME ( "." NAME )? "[" expr "]" | NAME
    args   := "(" ( expr ( "," expr )* )? ")" -/

namespace EntityScript.Source.Parse

def args? : Parse (Option (List Expr)) := do
  if ← eat .leftParen then
    return some (← listThrough expr .rightParen)
  else
    return none

/-! ## Places to assign to -/

/-- A slot of a pool. A second name before the index is read and left out. -/
def indexedSlot : Parse (String × Expr) := do
  let pool ← ident "pool name"
  if ← eat .dot then
    let _ ← ident "pool accessor"
  expect .leftBracket
  let index ← expr
  expect .rightBracket
  return (pool, index)

/-- A place to assign to. What is not a whole slot of a pool is read as a name,
and the rest is left to what follows. -/
def slot : Parse (String × Option Expr) := fun ts =>
  match indexedSlot ts with
  | .ok ((pool, index), rest) => .ok ((pool, some index), rest)
  | .error _ => (ident "assignment target" ts).map fun (name, rest) => ((name, none), rest)

def assignment : Parse Action := do
  let value ← expr
  expect .arrow
  match ← slot with
  | (pool, some index) => return .setIndexed value pool index
  | (name, none) => return .set value name

/-! ## Emitting -/

/-- To whom and which event: up to three names divided by dots, the last of which
is the event. -/
def emitPath : Parse (Target × String) := do
  let first ← ident "event name"
  if !(← eat .dot) then
    return (.implicit, first)
  let second ← ident "name after '.'"
  if !(← eat .dot) then
    return (if first = "self" then .self else .named first, second)
  let third ← ident "name after '.'"
  if ← eat .dot then
    misplaced "emit target has too many '.' segments"
  return (.remote first second, third)

/-- An emit, behind its keyword. A pool of another entity gives nothing back. -/
def emit : Parse Action := do
  let (target, event) ← emitPath
  let args := (← args?).getD []
  if !(← eat .arrow) then
    return .emit target event args
  if let .remote _ _ := target then
    misplaced "a pool command cannot return a value"
  match ← slot with
  | (pool, some index) => return .callIndexed target event args pool index
  | (field, none) => return .call target event args field

/-! ## Subscriptions -/

def subscription : Parse (String × String × String) := do
  let target ← ident "entity name"
  expect .dot
  let event ← ident "event name"
  expect .colon
  let handler ← ident "handler event name"
  return (target, event, handler)

def subscribe : Parse Action := do
  let (target, event, handler) ← subscription
  return .subscribe target event handler (← args?)

def unsubscribe : Parse Action := do
  let (target, event, handler) ← subscription
  return .unsubscribe target event handler

/-! ## Actions -/

def actionsThrough (action : Parse Action) : Nat → Parse (List Action)
  | 0 => unexpected (Token.mark .rightBrace).text
  | fuel + 1 => do
    if ← eat .rightBrace then
      return []
    if ← atEnd then
      unexpected (Token.mark .rightBrace).text
    let a ← action
    return a :: (← actionsThrough action fuel)

def checkWith (inner : Parse Action) : Parse Action := do
  let condition ← expr
  if ← eat .colon then
    return .check condition (← inner)
  else if ← comes .leftBrace then
    return .check condition (← inner)
  else
    return .guard condition

/-- An action, where `inner` reads the actions inside it. -/
def actionWith (inner : Parse Action) : Parse Action := fun ts =>
  match ts with
  | ⟨.mark .leftBrace, _, _⟩ :: rest =>
    (do return .block (← fuelled (actionsThrough inner)) : Parse Action) rest
  | ⟨.keyword .check, _, _⟩ :: rest => checkWith inner rest
  | ⟨.keyword .emit, _, _⟩ :: rest => emit rest
  | ⟨.keyword .when, _, _⟩ :: rest => subscribe rest
  | ⟨.keyword .unwhen, _, _⟩ :: rest => unsubscribe rest
  | _ => assignment ts

def actionWithin : Nat → Parse Action
  | 0 => unexpected "expression"
  | depth + 1 => actionWith (actionWithin depth)

def action : Parse Action := fuelled actionWithin

def body : Parse (List Action) := fuelled (actionsThrough action)

end EntityScript.Source.Parse
