import EntityScript.Action
import EntityScript.OrderedMap

/-! # Entities

An entity has fields in order and a set of events. -/

namespace EntityScript

/-- Fields, locals or parameters: values by name, in order. -/
abbrev Scope := OrderedMap String Value

/-- Events with distinct names, in order. -/
structure EventSet where
  events : List Event
  deriving Repr, Inhabited

namespace EventSet

/-- Keep of the events with one name the first. -/
def ofList (events : List Event) : EventSet :=
  ⟨events.foldl add []⟩
where
  add (kept : List Event) (e : Event) : List Event :=
    if kept.any fun k => k.name == e.name then kept else kept ++ [e]

/-- The first event of the name. `ofList` lets no second event of a name in, so on the sets that
it makes this is the only one: an index from names to positions, filled as the events come in,
would lead to the same event. -/
def get? (s : EventSet) (name : String) : Option Event :=
  s.events.find? fun e => e.name == name

end EventSet

/-- An entity. Copies of a declared entity carry its name. -/
structure Entity where
  id : EntityId
  name : String
  fields : Scope
  events : EventSet
  /-- Marked for removal: no longer a subscriber, and swept out of pools. -/
  destroyed : Bool
  deriving Inhabited

namespace Entity

def field? (e : Entity) (name : String) : Option Value := e.fields.get? name

def event? (e : Entity) (name : String) : Option Event := e.events.get? name

/-- Give a field a value, declaring it if need be. -/
def setField (e : Entity) (name : String) (v : Value) : Entity :=
  { e with fields := e.fields.insert name v }

def replaceEvents (e : Entity) (events : List Event) : Entity :=
  { e with events := .ofList events }

def pool? (e : Entity) (name : String) : Option (List Value) :=
  (e.field? name).bind Value.pool?

end Entity

end EntityScript
