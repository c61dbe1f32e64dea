import EntityScript.Fault
import EntityScript.Record.Value
import EntityScript.Settings
import EntityScript.Text.Quoted

/-! # Settings as text

Settings are written as a record, `(tick_event: "update", strict_arity: false)`,
with the name of the record in front or not. A setting that is not named keeps its
default. A name that is no setting is skipped with its value, whatever the value
is; a setting named twice is refused. -/

namespace EntityScript.Settings

open Record

/-! ## Reading -/

/-- The name that a record of settings may bear. -/
def recordName : String := "EngineConfig"

def names : List String :=
  ["init_event", "tick_event", "host_emit", "strict_arity", "gc_after_pulse"]

def bool? (cs : List Char) : Option (Bool × List Char) :=
  match word cs with
  | "true" => some (true, cs.drop 4)
  | "false" => some (false, cs.drop 5)
  | _ => none

/-- Skip the value of a name that is no setting. The record itself and the value in it
are a level each. -/
def skipOther? (enabled : List Feature) (cs : List Char) : Option (List Char) :=
  level (levels enabled (maxDepth - 1)) 0 cs

/-- Read the value of one setting. A name that is no setting changes nothing. -/
def readSetting? (enabled : List Feature) (s : Settings) (name : String) (cs : List Char) :
    Option (Settings × List Char) :=
  match name with
  | "init_event" => (string? cs).map fun (v, rest) => ({ s with initEvent := v }, rest)
  | "tick_event" => (string? cs).map fun (v, rest) => ({ s with tickEvent := v }, rest)
  | "host_emit" => (string? cs).map fun (v, rest) => ({ s with hostEvent := v }, rest)
  | "strict_arity" => (bool? cs).map fun (v, rest) => ({ s with strictArity := v }, rest)
  | "gc_after_pulse" => (bool? cs).map fun (v, rest) => ({ s with sweepAfterPulse := v }, rest)
  | _ => (skipOther? enabled cs).map fun rest => (s, rest)

/-- Read settings through the closing parenthesis; `seen` were named before. -/
def readRest? (enabled : List Feature) :
    (fuel : Nat) → List String → Settings → List Char → Option (Settings × List Char)
  | 0, _, _, _ => none
  | fuel + 1, seen, s, cs => do
    match ← skip cs with
    | ')' :: rest => some (s, rest)
    | cs =>
      let (name, rest) ← name? cs
      if names.contains name && seen.contains name then none
      else
        let rest ← expect? ":" rest
        let (s, rest) ← readSetting? enabled s name rest
        match ← skip rest with
        | ',' :: rest => readRest? enabled fuel (name :: seen) s rest
        | ')' :: rest => some (s, rest)
        | _ => none

/-- Take the name of the record, which may be left out unless the text asked for it. -/
def takeName? (enabled : List Feature) (cs : List Char) : Option (List Char) :=
  match name? cs with
  | some (name, rest) => if name = recordName then some rest else none
  | none => if enabled.contains .explicitStructNames then none else some cs

def read? (text : String) : Option Settings := do
  let cs := text.toList
  let (enabled, cs) ← features? (cs.length + 1) cs
  let rest ← expect? "(" (← takeName? enabled cs)
  let (s, rest) ← readRest? enabled (rest.length + 1) [] {} rest
  if (← skip rest).isEmpty then some s else none

def read (text : String) : Except Fault Settings :=
  match read? text with
  | some s => .ok s
  | none => .error .badSettings

/-! ## Writing -/

/-- One character of a string. An apostrophe is escaped as a quote is. -/
def writtenChar (c : Char) : List Char :=
  if c = '\'' then ['\\', '\''] else Text.quotedChar c

def stringText (s : String) : String :=
  String.ofList ('"' :: s.toList.flatMap writtenChar ++ ['"'])

def boolText (b : Bool) : String := if b then "true" else "false"

def line (name value : String) : String := "    " ++ name ++ ": " ++ value ++ ",\n"

def write (s : Settings) : String :=
  "(\n" ++ line "init_event" (stringText s.initEvent)
    ++ line "tick_event" (stringText s.tickEvent)
    ++ line "host_emit" (stringText s.hostEvent)
    ++ line "strict_arity" (boolText s.strictArity)
    ++ line "gc_after_pulse" (boolText s.sweepAfterPulse) ++ ")"

end EntityScript.Settings
