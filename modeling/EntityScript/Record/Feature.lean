import EntityScript.Record.Name

/-! # Features of the notation

A text may open with lines such as `#![enable(implicit_some)]`, which change how the
rest of it is read. -/

namespace EntityScript.Record

inductive Feature where
  /-- A structure with one part may be written as that part. -/
  | unwrapNewtypes
  /-- `Some` needs no parentheses around what it holds. -/
  | implicitSome
  /-- `Some` may hold the parts of what it holds, without parentheses of their own. -/
  | unwrapVariantNewtypes
  /-- A record has to bear its name. -/
  | explicitStructNames
  deriving DecidableEq, Repr

def features : List (String × Feature) :=
  [("unwrap_newtypes", .unwrapNewtypes), ("implicit_some", .implicitSome),
    ("unwrap_variant_newtypes", .unwrapVariantNewtypes),
    ("explicit_struct_names", .explicitStructNames)]

/-- Read the features of a list, through its closing parenthesis. At least one is
needed, with commas between them and possibly one behind the last. -/
def featureList? : (fuel : Nat) → List Char → Option (List Feature × List Char)
  | 0, _ => none
  | fuel + 1, cs => do
    let (name, rest) ← name? cs
    let feature ← features.lookup name
    match ← skip rest with
    | ')' :: rest => some ([feature], rest)
    | ',' :: rest =>
      match ← skip rest with
      | ')' :: rest => some ([feature], rest)
      | rest => (featureList? fuel rest).map fun (fs, rest) => (feature :: fs, rest)
    | _ => none

def features? : (fuel : Nat) → List Char → Option (List Feature × List Char)
  | 0, _ => none
  | fuel + 1, cs => do
    match ← skip cs with
    | '#' :: rest =>
      let rest ← expect? "!" rest
      let rest ← expect? "[" rest
      let rest ← expect? "enable" rest
      let rest ← expect? "(" rest
      let (found, rest) ← featureList? rest.length rest
      let rest ← expect? "]" rest
      (features? fuel rest).map fun (fs, rest) => (found ++ fs, rest)
    | rest => some ([], rest)

end EntityScript.Record
