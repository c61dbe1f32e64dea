import EntityScript.Table

/-! # Programs

A program declares entities with the initial values of their fields and their
events. -/

namespace EntityScript

structure Declaration where
  name : String
  fields : Scope
  events : List Event
  deriving DecidableEq, Inhabited

structure Program where
  declarations : List Declaration
  deriving DecidableEq, Inhabited

namespace Program

def find? (p : Program) (name : String) : Option Declaration :=
  p.declarations.find? fun d => d.name == name

end Program

/-- Declare entities one after another, with the identities they got. A name that is
taken ends it, and what was declared before stays. -/
def Table.declareAll (t : Table) : List Declaration → Except Fault (List EntityId) × Table
  | [] => (.ok [], t)
  | d :: ds =>
    match t.declare d.name d.fields d.events with
    | .error fault => (.error fault, t)
    | .ok (id, t) =>
      match t.declareAll ds with
      | (.error fault, t) => (.error fault, t)
      | (.ok ids, t) => (.ok (id :: ids), t)

def Program.toTable (p : Program) : Except Fault Table :=
  match Table.empty.declareAll p.declarations with
  | (.error fault, _) => .error fault
  | (.ok _, t) => .ok t

end EntityScript
