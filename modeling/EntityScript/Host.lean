import EntityScript.Value

/-! # The host

What a simulation sees of its surroundings: the lines still to be read, the
callbacks that can be called, and a transcript of all that was written, asked and
called. -/

namespace EntityScript

inductive Notice where
  | log (line : String)
  | diagnostic (line : String)
  | prompt (text : String)
  | call (name : String) (args : List Value)
  deriving Repr

structure Host where
  input : List String := []
  callbacks : List String := []
  transcript : List Notice := []
  deriving Inhabited

namespace Host

def note (h : Host) (n : Notice) : Host := { h with transcript := h.transcript ++ [n] }

/-- Show a prompt and read a line; none at the end of the input. -/
def readLine (h : Host) (prompt : String) : Option String × Host :=
  let h := h.note (.prompt prompt)
  match h.input with
  | [] => (none, h)
  | line :: rest => (some line, { h with input := rest })

def feed (h : Host) (line : String) : Host := { h with input := h.input ++ [line] }

def registered (h : Host) (name : String) : Bool := h.callbacks.contains name

/-- Register a callback; one of that name keeps its place. -/
def register (h : Host) (name : String) : Host :=
  if h.registered name then h else { h with callbacks := h.callbacks ++ [name] }

def unregister (h : Host) (name : String) : Bool × Host :=
  (h.registered name, { h with callbacks := h.callbacks.filter fun n => n != name })

def invoke (h : Host) (name : String) (args : List Value) : Bool × Host :=
  if h.registered name then (true, h.note (.call name args)) else (false, h)

/-- Forget what was logged and reported. -/
def clear (h : Host) : Host :=
  { h with transcript := h.transcript.filter fun
      | .log _ => false
      | .diagnostic _ => false
      | _ => true }

end Host

/-! ## Standard streams -/

/-- What a transcript puts on standard output: logged lines, and prompts without a
line end. -/
def Notice.output (ns : List Notice) : String :=
  String.join (ns.map fun
    | .log line => line ++ "\n"
    | .prompt text => text
    | _ => "")

def Notice.errors (ns : List Notice) : String :=
  String.join (ns.map fun
    | .diagnostic line => line ++ "\n"
    | _ => "")

/-- A line without the carriage returns and line feeds at its end. -/
def chomp (line : List Char) : List Char :=
  (line.reverse.dropWhile fun c => c == '\r' || c == '\n').reverse

/-- The pieces of a text, each but the last ended by a line feed. -/
def inputPieces : List Char → List (List Char)
  | [] => []
  | c :: cs =>
    if c = '\n' then ['\n'] :: inputPieces cs
    else
      match inputPieces cs with
      | [] => [[c]]
      | piece :: rest => (c :: piece) :: rest

def inputLines (text : String) : List String :=
  (inputPieces text.toList).map fun piece => String.ofList (chomp piece)

end EntityScript
