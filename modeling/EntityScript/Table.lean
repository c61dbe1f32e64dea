import EntityScript.Entity
import EntityScript.Fault

/-! # The table of entities

All entities in the order of their creation, an index of the declared names, and
the next free identity. A copy is in the table but not in the index. -/

namespace EntityScript

/-- The entities of a program. An entity is found under the identity that it carries, and no key
is kept beside it. Entities come in by `declare` and `copy` only, which give the new entity the
identity under which it is filed, and no change of an entity touches it; so a key would always be
equal to the identity, and that the two agree holds here by the form of the table. -/
structure Table where
  entities : List Entity
  names : OrderedMap String EntityId
  nextId : Nat
  deriving Inhabited

namespace Table

def empty : Table := ⟨[], .empty, 0⟩

/-! ## Looking up -/

def get? (t : Table) (id : EntityId) : Option Entity :=
  t.entities.find? fun e => e.id == id

def contains (t : Table) (id : EntityId) : Bool := (t.get? id).isSome

def isLive (t : Table) (id : EntityId) : Bool :=
  match t.get? id with
  | some e => !e.destroyed
  | none => false

def ids (t : Table) : List EntityId := t.entities.map Entity.id

def idOf? (t : Table) (name : String) : Option EntityId := t.names.get? name

def byName? (t : Table) (name : String) : Option Entity := (t.idOf? name).bind t.get?

/-- The entity that a value refers to, by reference or by declared name. -/
def resolve? (t : Table) (v : Value) : Option EntityId :=
  match v with
  | .entity id => if t.contains id then some id else none
  | .string name => t.idOf? name
  | _ => none

def pool (t : Table) (owner : EntityId) (field : String) : Except Fault (List Value) :=
  match (t.get? owner).bind fun e => e.pool? field with
  | some p => .ok p
  | none => .error (.notAPool field)

/-! ## Changing -/

def modify (t : Table) (id : EntityId) (f : Entity → Entity) : Table :=
  { t with entities := t.entities.map fun e => if e.id = id then f e else e }

def setField (t : Table) (id : EntityId) (name : String) (v : Value) : Table :=
  t.modify id fun e => e.setField name v

/-- Mark an entity destroyed. It stays in the table. -/
def destroy (t : Table) (id : EntityId) : Table :=
  t.modify id fun e => { e with destroyed := true }

def declare (t : Table) (name : String) (fields : Scope) (events : List Event) :
    Except Fault (EntityId × Table) :=
  if t.names.contains name then .error (.duplicateEntity name)
  else
    let id : EntityId := ⟨t.nextId⟩
    let e : Entity := ⟨id, name, fields, .ofList events, false⟩
    .ok (id, ⟨t.entities ++ [e], t.names.insert name id, t.nextId + 1⟩)

/-- Add a copy of an entity, reachable by its identity only. An identity is used
up even if there is nothing to copy. -/
def copy (t : Table) (source : EntityId) : Except Fault EntityId × Table :=
  let id : EntityId := ⟨t.nextId⟩
  match t.get? source with
  | some e =>
    (.ok id, { t with
      entities := t.entities ++ [{ e with id := id, destroyed := false }]
      nextId := t.nextId + 1 })
  | none => (.error (.entityNotFound source.text), { t with nextId := t.nextId + 1 })

/-- Remove an entity, and its name from the index if the name stands for it. -/
def discard (t : Table) (id : EntityId) : Option (Entity × Table) :=
  (t.get? id).map fun e =>
    (e, { t with
      entities := t.entities.filter fun x => x.id != id
      names := if t.idOf? e.name = some id then t.names.erase e.name else t.names })

end Table

end EntityScript
