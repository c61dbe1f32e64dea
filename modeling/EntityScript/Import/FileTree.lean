import EntityScript.OrderedMap

/-! # File trees

Files and folders by path. A path is the list of names from the top; a path in text
is taken from a folder, step by step, and each step but the last must lead to a
folder. -/

namespace EntityScript.Import

/-- The names from the top down to a file or folder. -/
abbrev Path := List String

inductive Node where
  | file (bytes : ByteArray)
  | folder
  deriving Inhabited

structure FileTree where
  nodes : OrderedMap Path Node
  deriving Inhabited

namespace FileTree

/-- What a path leads to. The top is always there. -/
def get? (t : FileTree) (p : Path) : Option Node :=
  if p.isEmpty then some .folder else t.nodes.get? p

def isFolder (t : FileTree) (p : Path) : Bool :=
  match t.get? p with
  | some .folder => true
  | _ => false

def above (p : Path) : List Path :=
  (List.range (p.length - 1)).map fun i => p.take (i + 1)

def makeFolders (t : FileTree) (p : Path) : FileTree :=
  (above p).foldl (fun t q => if (t.get? q).isSome then t else ⟨t.nodes.insert q .folder⟩) t

def put (t : FileTree) (p : Path) (n : Node) : FileTree :=
  ⟨(t.makeFolders p).nodes.insert p n⟩

def ofFolder (p : Path) : FileTree := put ⟨.empty⟩ p .folder

def pieces : List Char → List (List Char)
  | [] => [[]]
  | '/' :: cs => [] :: pieces cs
  | c :: cs =>
    match pieces cs with
    | [] => [[c]]
    | piece :: rest => (c :: piece) :: rest

def steps (text : String) : List String :=
  (pieces text.toList).map String.ofList

def walk? (t : FileTree) (p : Path) (step : String) : Option Path :=
  if !t.isFolder p then none
  else if step = "" ∨ step = "." then some p
  else if step = ".." then some p.dropLast
  else if (t.get? (p ++ [step])).isSome then some (p ++ [step])
  else none

/-- Where a path in text leads to from a folder, if there is something. A path that
starts with a slash is taken from the top. -/
def locate? (t : FileTree) (base : Path) (text : String) : Option Path :=
  (steps text).foldlM t.walk? (if text.startsWith "/" then [] else base)

/-- The text of a file. A folder has none, nor has a file that is not in UTF-8. -/
def read? (t : FileTree) (p : Path) : Option String :=
  match t.get? p with
  | some (.file bytes) => String.fromUTF8? bytes
  | _ => none

end FileTree

/-- Files, and where a path in text leads to from a folder. It is left open how paths are taken:
they may lead through links, but then to what stands there in the tree. -/
structure Files extends FileTree where
  locate? : Path → String → Option Path

/-- A tree has no links, so paths are taken step by step. -/
instance : Coe FileTree Files := ⟨fun t => { t with locate? := t.locate? }⟩

/-- The last name of a path in text, if it names something in a folder. -/
def fileName? (text : String) : Option String :=
  match ((FileTree.steps text).filter fun s => s != "" && s != ".").getLast? with
  | some ".." => none
  | name => name

/-- What stands behind the last dot of a file name, unless the dot comes first. -/
def extension (text : String) : String :=
  match fileName? text with
  | none => ""
  | some name =>
    let cs := name.toList.reverse
    let ext := cs.takeWhile (· != '.')
    match cs.dropWhile (· != '.') with
    | _ :: _ :: _ => String.ofList ext.reverse
    | _ => ""

end EntityScript.Import
