import EntityScript.Fault
import EntityScript.Source.Position

/-! # Script faults

Why a program text, a snippet or a file is refused. -/

namespace EntityScript

open Source (Position)

inductive ScriptFault where
  | unreadable
  | lexical (position : Position) (context : String)
  | parse (position : Position) (problem context : String)
  | duplicateField (entity field : String)
  | duplicateEvent (entity event : String)
  | duplicateEntity (name : String)
  /-- A snippet must hold one entity. -/
  | snippet (count : Nat)
  /-- A file name without one of the extensions of scripts. -/
  | extension (name : String)
  | engine (fault : Fault)
  deriving DecidableEq, Repr

namespace ScriptFault

def atPosition (p : Position) : String :=
  "line " ++ toString p.line ++ ", col " ++ toString p.column

def message : ScriptFault → String
  | .unreadable => "IO error"
  | .lexical p context => "Unrecognized input at " ++ atPosition p ++ "\n" ++ context
  | .parse p problem context =>
    "Parse error at " ++ atPosition p ++ ": " ++ problem ++ "\n" ++ context
  | .duplicateField entity field =>
    "Entity '" ++ entity ++ "' has duplicate field '" ++ field ++ "'"
  | .duplicateEvent entity event =>
    "Entity '" ++ entity ++ "' has duplicate event '" ++ event ++ "'"
  | .duplicateEntity name => "Duplicate entity definition: '" ++ name ++ "'"
  | .snippet count => "Expected exactly one entity in snippet, found " ++ toString count
  | .extension name => "Unsupported script extension '" ++ name ++ "'"
  | .engine fault => fault.message

def isSemantic : ScriptFault → Bool
  | .duplicateField _ _ => true
  | .duplicateEvent _ _ => true
  | .duplicateEntity _ => true
  | _ => false

def position? : ScriptFault → Option Position
  | .lexical p _ => some p
  | .parse p _ _ => some p
  | _ => none

end ScriptFault

end EntityScript
