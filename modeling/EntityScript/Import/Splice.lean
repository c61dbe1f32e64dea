import EntityScript.Import.FileTree
import EntityScript.ScriptFault
import EntityScript.Text.Blank

/-! # Imports

A line `import "path";` of a script stands for the file at that path, seen from the
folder of the script. A file is spliced in where it is met first and nowhere else,
so files may import each other. An import of nothing is left out. -/

namespace EntityScript.Import

def scriptExtensions : List String := ["mrph", "morph", "morphyn"]

inductive LineKind where
  | ordinary
  | importing (path : String)
  | malformed
  deriving DecidableEq, Repr

/-- An import starts with the word and a space and ends with a semicolon, up to
blanks at both ends; its path stands between the first quote and the last. -/
def LineKind.of (line : String) : LineKind :=
  let cs := Text.trimChars line.toList
  if !("import ".toList.isPrefixOf cs) || cs.getLast? != some ';' then .ordinary
  else
    match cs.dropWhile (· != '"') with
    | [] => .ordinary
    | _ :: behind =>
      match behind.reverse.dropWhile (· != '"') with
      | [] => .malformed
      | _ :: path => if path.isEmpty then .malformed else .importing (String.ofList path.reverse)

/-- A result together with the files that have been spliced in by then. -/
abbrev Spliced := Except ScriptFault String × List Path

/-- Splice the lines of a file in `folder`, where `file` splices a whole file. -/
def spliceLines (t : Files) (folder : Path)
    (file : List Path → Path → Option Spliced) : List String → List Path → Option Spliced
  | [], visited => some (.ok "", visited)
  | line :: rest, visited =>
    match LineKind.of line with
    | .ordinary => do
      let (text, visited) ← spliceLines t folder file rest visited
      some (text.map fun text => line ++ "\n" ++ text, visited)
    | .malformed => spliceLines t folder file rest visited
    | .importing path =>
      match t.locate? folder path with
      | none => spliceLines t folder file rest visited
      | some p => do
        match ← file visited p with
        | (.error fault, visited) => some (.error fault, visited)
        | (.ok text, visited) =>
          let (rest, visited) ← spliceLines t folder file rest visited
          some (rest.map fun rest => text ++ rest, visited)

/-- Splice a file and its imports along chains of at most `depth` files; none if a
chain is longer. -/
def spliceWithin (t : Files) : Nat → List Path → Path → Option Spliced
  | 0, _, _ => none
  | depth + 1, visited, p =>
    if visited.contains p then some (.ok "", visited)
    else
      let visited := visited ++ [p]
      match t.read? p with
      | none => some (.error .unreadable, visited)
      | some text =>
        spliceLines t p.dropLast (spliceWithin t depth) (Text.lines text) visited

/-- Splice a file and its imports. Each file of a chain is new, so a chain is no
longer than the tree has files and folders, the top among them, and ends with one
that was met before. -/
def splice (t : Files) (visited : List Path) (p : Path) : Spliced :=
  (spliceWithin t (t.nodes.entries.length + 2) visited p).getD (.error .unreadable, visited)

/-- Read a script with its imports, seen from `folder`; `visited` are the files
spliced in before. -/
def resolve (t : Files) (folder : Path) (visited : List Path) (path : String) : Spliced :=
  if !scriptExtensions.contains (extension path) then
    (.error (.extension (extension path)), visited)
  else
    match t.locate? folder path with
    | none => (.error .unreadable, visited)
    | some p => splice t visited p

end EntityScript.Import
