import EntityScript.ScriptFault
import EntityScript.Source.Scan

/-! # Reading tokens

A reader takes tokens from the front of a list and yields a result and the rest,
or says why it cannot. A refusal keeps the tokens from which it stopped, so its
place in the source is the start of the first of them. -/

namespace EntityScript.Source

inductive Refusal where
  | expected (what : String) (rest : List Spanned)
  | misplaced (problem : String) (rest : List Spanned)
  | duplicateField (entity field : String)
  | duplicateEvent (entity event : String)
  | duplicateEntity (name : String)
  deriving Repr

namespace Refusal

/-- The byte where the remaining tokens start: that of the first one, else the end
of the source. -/
def offset (source : String) : List Spanned → Nat
  | s :: _ => s.start
  | [] => source.utf8ByteSize

def found : List Spanned → String
  | s :: _ => s.token.text
  | [] => "end of input"

def parseFault (source problem : String) (rest : List Spanned) : ScriptFault :=
  let position := Position.ofOffset source (offset source rest)
  .parse position problem (position.context source)

def toScriptFault (source : String) : Refusal → ScriptFault
  | .expected what rest =>
    parseFault source ("expected " ++ what ++ ", found " ++ found rest) rest
  | .misplaced problem rest => parseFault source problem rest
  | .duplicateField entity field => .duplicateField entity field
  | .duplicateEvent entity event => .duplicateEvent entity event
  | .duplicateEntity name => .duplicateEntity name

end Refusal

abbrev Parse := StateT (List Spanned) (Except Refusal)

namespace Parse

variable {α : Type}

def unexpected (what : String) : Parse α := fun ts => .error (.expected what ts)

def misplaced (problem : String) : Parse α := fun ts => .error (.misplaced problem ts)

def eat (m : Mark) : Parse Bool := fun ts =>
  match ts with
  | ⟨.mark m', _, _⟩ :: rest => if m' = m then .ok (true, rest) else .ok (false, ts)
  | _ => .ok (false, ts)

def comes (m : Mark) : Parse Bool := fun ts =>
  match ts with
  | ⟨.mark m', _, _⟩ :: _ => .ok (m' = m, ts)
  | _ => .ok (false, ts)

def expect (m : Mark) : Parse Unit := do
  unless ← eat m do
    unexpected (Token.mark m).text

def expectWord (k : Keyword) : Parse Unit := fun ts =>
  match ts with
  | ⟨.keyword k', _, _⟩ :: rest =>
    if k' = k then .ok ((), rest) else unexpected (Token.keyword k).text ts
  | _ => unexpected (Token.keyword k).text ts

def ident (what : String) : Parse String := fun ts =>
  match ts with
  | ⟨.ident name, _, _⟩ :: rest => .ok (name, rest)
  | _ => unexpected what ts

def atEnd : Parse Bool := fun ts => .ok (ts.isEmpty, ts)

/-- Run a reader that may need as many steps as there are tokens, and one more. -/
def fuelled (p : Nat → Parse α) : Parse α := fun ts => p (ts.length + 1) ts

/-- Items divided by commas, through the closing mark; at most `fuel` of them. -/
def itemsThrough (item : Parse α) (close : Mark) : Nat → Parse (List α)
  | 0 => unexpected (Token.mark close).text
  | fuel + 1 => do
    let a ← item
    if ← eat close then
      return [a]
    else
      expect .comma
      return a :: (← itemsThrough item close fuel)

/-- Items divided by commas behind an opening mark, through the closing mark.
There may be none. -/
def listThrough (item : Parse α) (close : Mark) : Parse (List α) := do
  if ← eat close then
    return []
  else
    fuelled (itemsThrough item close)

def run (p : Parse α) (source : String) : Except ScriptFault α :=
  match scan source with
  | .error offset =>
    let position := Position.ofOffset source offset
    .error (.lexical position (position.context source))
  | .ok ts =>
    match p ts with
    | .error refusal => .error (refusal.toScriptFault source)
    | .ok (a, _) => .ok a

end Parse

def tokenize (source : String) : Except ScriptFault (List Spanned) :=
  (get : Parse (List Spanned)).run source

end EntityScript.Source
