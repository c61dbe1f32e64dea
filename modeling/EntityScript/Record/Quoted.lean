import EntityScript.Record.Blank

/-! # Strings, characters and bytes in a record

A backslash escapes a quote, a control, a character by its number, or a character by
the bytes that encode it. In a string it also escapes the end of a line, together with
the blanks that the next lines start with. A raw string has no escapes and ends at a
quote that as many hashes follow as its opening quote had before it. -/

namespace EntityScript.Record

/-! ## Escapes -/

def hexDigit? (c : Char) : Option Nat :=
  if c.isDigit then some (c.toNat - '0'.toNat)
  else if 'a' ≤ c ∧ c ≤ 'f' then some (c.toNat - 'a'.toNat + 10)
  else if 'A' ≤ c ∧ c ≤ 'F' then some (c.toNat - 'A'.toNat + 10)
  else none

def hexValue? (ds : List Char) : Option Nat :=
  ds.foldlM (fun n d => (hexDigit? d).map fun h => 16 * n + h) 0

def char? (n : Nat) : Option Char :=
  if h : n.isValidChar then some (Char.ofNatAux n h) else none

/-- The low bits of a byte that goes on with a character. -/
def tailBits? (b : Nat) : Option Nat :=
  if 0x80 ≤ b ∧ b < 0xc0 then some (b - 0x80) else none

/-- The character that a sequence of bytes encodes, in the shortest form only. -/
def charOfBytes? : List Nat → Option Char
  | [a] => if a < 0x80 then char? a else none
  | [a, b] => do
    let n := 64 * (a - 0xc0) + (← tailBits? b)
    if 0xc0 ≤ a ∧ a < 0xe0 ∧ 0x80 ≤ n then char? n else none
  | [a, b, c] => do
    let n := 64 * (64 * (a - 0xe0) + (← tailBits? b)) + (← tailBits? c)
    if 0xe0 ≤ a ∧ a < 0xf0 ∧ 0x800 ≤ n then char? n else none
  | [a, b, c, d] => do
    let n := 64 * (64 * (64 * (a - 0xf0) + (← tailBits? b)) + (← tailBits? c)) + (← tailBits? d)
    if 0xf0 ≤ a ∧ a < 0xf8 ∧ 0x10000 ≤ n then char? n else none
  | _ => none

def byte? : List Char → Option (Nat × List Char)
  | a :: b :: rest => (hexValue? [a, b]).map fun n => (n, rest)
  | _ => none

/-- A character by its bytes, of which `bytes` are read and at most `more` follow, each
behind its own `\x`. -/
def charByBytes? : (more : Nat) → (bytes : List Nat) → List Char → Option (Char × List Char)
  | more, bytes, cs =>
    match charOfBytes? bytes with
    | some c => some (c, cs)
    | none =>
      match more, cs with
      | more + 1, '\\' :: 'x' :: rest => do
        let (b, rest) ← byte? rest
        charByBytes? more (bytes ++ [b]) rest
      | _, _ => none

def shortEscape? : Char → Option Char
  | '\'' => some '\''
  | '"' => some '"'
  | '\\' => some '\\'
  | 'n' => some '\n'
  | 'r' => some '\r'
  | 't' => some '\t'
  | '0' => some '\x00'
  | _ => none

def charByNumber? : List Char → Option (Char × List Char)
  | '\x7b' :: rest => do
    let ds := rest.takeWhile (· != '\x7d')
    if ds.isEmpty || 6 < ds.length then none
    else
      let c ← char? (← hexValue? ds)
      let rest ← take? "\x7d" (rest.drop ds.length)
      some (c, rest)
  | _ => none

/-- The character that an escape stands for, behind the backslash. A character given
by its bytes has at most `more` bytes after the first. -/
def escape? (more : Nat) : List Char → Option (Char × List Char)
  | 'x' :: rest => do
    let (b, rest) ← byte? rest
    charByBytes? more [b] rest
  | 'u' :: rest => charByNumber? rest
  | c :: rest => (shortEscape? c).map fun d => (d, rest)
  | [] => none

/-- As `escape?`, among bytes: a byte stands for itself, whatever it encodes. -/
def byteEscape? : List Char → Option (Char × List Char)
  | 'x' :: rest => (byte? rest).map fun (b, rest) => (Char.ofNat b, rest)
  | cs => escape? 0 cs

/-! ## Strings -/

def isLineBlank (c : Char) : Bool := c == ' ' || c == '\t' || c == '\n' || c == '\r'

def lineEnd? : List Char → Option (List Char)
  | '\n' :: rest => some (rest.dropWhile isLineBlank)
  | '\r' :: '\n' :: rest => some (rest.dropWhile isLineBlank)
  | _ => none

def stringRest? (escape : List Char → Option (Char × List Char)) :
    (fuel : Nat) → List Char → Option (List Char × List Char)
  | 0, _ => none
  | _ + 1, [] => none
  | _ + 1, '"' :: rest => some ([], rest)
  | fuel + 1, '\\' :: rest =>
    match lineEnd? rest with
    | some rest => stringRest? escape fuel rest
    | none => do
      let (c, rest) ← escape rest
      let (cs, rest) ← stringRest? escape fuel rest
      some (c :: cs, rest)
  | fuel + 1, c :: rest => do
    let (cs, rest) ← stringRest? escape fuel rest
    some (c :: cs, rest)

def rawRest? (hashes : List Char) : List Char → Option (List Char × List Char)
  | [] => none
  | c :: rest =>
    if c = '"' ∧ hashes.isPrefixOf rest then some ([], rest.drop hashes.length)
    else (rawRest? hashes rest).map fun (cs, rest) => (c :: cs, rest)

/-- A string, plain with its kind of escapes or raw behind an `r`. -/
def stringWith? (escape : List Char → Option (Char × List Char)) :
    List Char → Option (String × List Char)
  | '"' :: rest =>
    (stringRest? escape (rest.length + 1) rest).map fun (s, rest) => (String.ofList s, rest)
  | 'r' :: rest => do
    let hashes := rest.takeWhile (· == '#')
    let rest ← take? "\"" (rest.drop hashes.length)
    let (s, rest) ← rawRest? hashes rest
    some (String.ofList s, rest)
  | _ => none

def string? (cs : List Char) : Option (String × List Char) := stringWith? (escape? 3) cs

def skipBytes? (cs : List Char) : Option (List Char) :=
  (stringWith? byteEscape? cs).map Prod.snd

/-! ## Single characters and bytes -/

def skipChar? : List Char → Option (List Char)
  | '\\' :: rest => (escape? 0 rest).bind fun (_, rest) => take? "'" rest
  | _ :: rest => take? "'" rest
  | [] => none

/-- Skip a byte, behind its opening quote: an ASCII character or an escape that does
not go by a character's number. -/
def skipByte? : List Char → Option (List Char)
  | '\\' :: 'u' :: _ => none
  | '\\' :: rest => (byteEscape? rest).bind fun (_, rest) => take? "'" rest
  | c :: rest => if c.toNat < 0x80 then take? "'" rest else none
  | [] => none

end EntityScript.Record
