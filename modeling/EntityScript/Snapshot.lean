import EntityScript.Source.Program

/-! # Snapshots

The fields of entities as source text, from which they can be read back. Events are
neither written nor touched when fields are read back. A reference is written as
the name of its entity, and what has no literal is written as null. -/

namespace EntityScript

namespace Snapshot

def literalChar (c : Char) : List Char :=
  match c with
  | '"' => ['\\', '"']
  | '\\' => ['\\', '\\']
  | '\n' => ['\\', 'n']
  | '\t' => ['\\', 't']
  | '\r' => ['\\', 'r']
  | c => [c]

def literal (s : String) : String :=
  String.ofList ('"' :: s.toList.flatMap literalChar ++ ['"'])

mutual

def value (t : Table) : Value → String
  | .null => "null"
  | .number n => if Number.isFinite n then Number.text n else "null"
  | .bool b => if b then "true" else "false"
  | .string s => literal s
  | .pool items => "pool[" ++ ", ".intercalate (values t items) ++ "]"
  | .entity id =>
    match t.get? id with
    | some e => literal e.name
    | none => "null"

def values (t : Table) : List Value → List String
  | [] => []
  | v :: vs => value t v :: values t vs

end

def field (t : Table) (name : String) (v : Value) : String :=
  "  has " ++ name ++ ": " ++ value t v ++ "\n"

def entity (t : Table) (e : Entity) : String :=
  "entity " ++ e.name ++ " \x7b\n" ++ String.join (e.fields.entries.map fun f => field t f.1 f.2)
    ++ "\x7d\n"

/-- The declared entities in order, with a blank line between them. -/
def table (t : Table) : String :=
  "\n".intercalate ((t.names.values.filterMap t.get?).map (entity t))

end Snapshot

/-- Give an entity the fields of a snippet that declares one entity. The other
fields stay, and the name in the snippet does not matter. -/
def Entity.merge (e : Entity) (snippet : String) : Except ScriptFault Unit × Entity :=
  match Program.parse snippet with
  | .error fault => (.error fault, e)
  | .ok p =>
    match p.declarations with
    | [d] => (.ok (), { e with fields := e.fields.insertAll d.fields.entries })
    | ds => (.error (.snippet ds.length), e)

end EntityScript
