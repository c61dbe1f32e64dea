import EntityScript.Source.Token

/-! # From characters to tokens

The tokens are given by rules: fixed words and marks, and patterns for numbers, strings, names,
comments and blanks. Of scanners that are generated from such rules, this documented behaviour is
taken over:

* at each place the rule is taken that matches the longest text, and a fixed word comes before a
  pattern that matches no more than it;
* a rule that is skipped (comments, blanks) yields no token;
* where no rule matches, and where the text that a rule matches is refused when it is read (a
  number, the escapes of a string), there is an error, and it starts where the lexeme should have
  started, however far the scanner had to look.

Lexemes of different classes start differently, except that a slash may also start a comment, so
the first characters decide the class (`lexeme?`). -/

namespace EntityScript.Source

/-! ## Classes of characters -/

def isGapChar (c : Char) : Bool :=
  c == ' ' || c == '\t' || c == '\r' || c == '\n' || c == '\x0c'

def isWordStart (c : Char) : Bool := c.isAlpha || c == '_'

def isWordChar (c : Char) : Bool := c.isAlphanum || c == '_'

/-! ## Lexemes, each as the characters it covers -/

/-- Digits, with more digits behind a point if there are any. -/
def numberChars (cs : List Char) : List Char :=
  let whole := cs.takeWhile Char.isDigit
  match cs.dropWhile Char.isDigit with
  | '.' :: rest =>
    let places := rest.takeWhile Char.isDigit
    if places.isEmpty then whole else whole ++ '.' :: places
  | _ => whole

/-- The rest of a block comment, through its first end. -/
def blockRest? : List Char → Option (List Char)
  | [] => none
  | '*' :: '/' :: _ => some ['*', '/']
  | c :: cs => (blockRest? cs).map (c :: ·)

/-- A comment: to the end of the line, or a block that is closed. -/
def commentChars? : List Char → Option (List Char)
  | '/' :: '/' :: cs => some ('/' :: '/' :: cs.takeWhile (· != '\n'))
  | '#' :: cs => some ('#' :: cs.takeWhile (· != '\n'))
  | '/' :: '*' :: cs => (blockRest? cs).map fun rest => '/' :: '*' :: rest
  | _ => none

/-- The inside of a string, up to its closing quote. A backslash takes the next
character with it, which may not be a line feed. -/
def stringInside? : List Char → Option (List Char)
  | [] => none
  | '"' :: _ => some []
  | ['\\'] => none
  | '\\' :: c :: cs =>
    if c = '\n' then none else (stringInside? cs).map fun rest => '\\' :: c :: rest
  | c :: cs => (stringInside? cs).map (c :: ·)

def escaped? : Char → Option Char
  | 'n' => some '\n'
  | 't' => some '\t'
  | 'r' => some '\r'
  | '"' => some '"'
  | '\\' => some '\\'
  | _ => none

def unescape? : List Char → Option (List Char)
  | [] => some []
  | ['\\'] => none
  | '\\' :: c :: cs => do
    let d ← escaped? c
    let rest ← unescape? cs
    some (d :: rest)
  | c :: cs => (unescape? cs).map (c :: ·)

/-- A mark; of two that fit, the longer. -/
def mark? : List Char → Option (Mark × List Char)
  | '-' :: '>' :: _ => some (.arrow, ['-', '>'])
  | '=' :: '=' :: _ => some (.equalTo, ['=', '='])
  | '!' :: '=' :: _ => some (.notEqualTo, ['!', '='])
  | '<' :: '=' :: _ => some (.atMost, ['<', '='])
  | '>' :: '=' :: _ => some (.atLeast, ['>', '='])
  | '\x7b' :: _ => some (.leftBrace, ['\x7b'])
  | '\x7d' :: _ => some (.rightBrace, ['\x7d'])
  | '(' :: _ => some (.leftParen, ['('])
  | ')' :: _ => some (.rightParen, [')'])
  | '[' :: _ => some (.leftBracket, ['['])
  | ']' :: _ => some (.rightBracket, [']'])
  | ',' :: _ => some (.comma, [','])
  | ':' :: _ => some (.colon, [':'])
  | '.' :: _ => some (.dot, ['.'])
  | '<' :: _ => some (.less, ['<'])
  | '>' :: _ => some (.greater, ['>'])
  | '=' :: _ => some (.assign, ['='])
  | '+' :: _ => some (.plus, ['+'])
  | '-' :: _ => some (.minus, ['-'])
  | '*' :: _ => some (.star, ['*'])
  | '/' :: _ => some (.slash, ['/'])
  | '%' :: _ => some (.percent, ['%'])
  | _ => none

def wordToken (w : String) : Token :=
  match Keyword.ofWord? w with
  | some k => .keyword k
  | none => .ident w

/-- The token of a string from its inside, if every escape in it is known. -/
def stringToken? (inside : List Char) : Option Token :=
  (unescape? inside).map fun cs => .string (String.ofList cs)

/-! ## Scanning -/

inductive Lexeme where
  | gap
  | token (t : Token)
  deriving Repr

/-- The longest lexeme at the start of a text, with the characters it covers. -/
def lexeme? (cs : List Char) : Option (Lexeme × List Char) :=
  match cs with
  | [] => none
  | c :: rest =>
    if isGapChar c then
      some (.gap, cs.takeWhile isGapChar)
    else if isWordStart c then
      let word := cs.takeWhile isWordChar
      some (.token (wordToken (String.ofList word)), word)
    else if c.isDigit then
      let digits := numberChars cs
      (Number.read? (String.ofList digits)).map fun n => (.token (.number n), digits)
    else if c = '"' then do
      let inside ← stringInside? rest
      let t ← stringToken? inside
      some (.token t, '"' :: inside ++ ['"'])
    else
      match commentChars? cs with
      | some comment => some (.gap, comment)
      | none => (mark? cs).map fun (m, taken) => (.token (.mark m), taken)

def byteSize : List Char → Nat
  | [] => 0
  | c :: cs => c.utf8Size + byteSize cs

def startsWord : List Char → Bool
  | c :: _ => isWordStart c
  | [] => false

/-- Scan from the byte `offset` on, within `fuel` lexemes. The error is the byte at
which a lexeme should start and none does, or at which a number starts that runs
into a word. -/
def scanFrom : Nat → Nat → List Char → Except Nat (List Spanned)
  | _, _, [] => .ok []
  | 0, offset, _ => .error offset
  | fuel + 1, offset, cs =>
    match lexeme? cs with
    | none => .error offset
    | some (.gap, taken) => scanFrom fuel (offset + byteSize taken) (cs.drop taken.length)
    | some (.token t, taken) =>
      let stop := offset + byteSize taken
      let rest := cs.drop taken.length
      if t.isNumber && startsWord rest then .error offset
      else (scanFrom fuel stop rest).map fun ts => ⟨t, offset, stop⟩ :: ts

/-- The tokens of a text. A lexeme has at least one character, so their number
bounds the scan. -/
def scan (source : String) : Except Nat (List Spanned) :=
  scanFrom source.toList.length 0 source.toList

end EntityScript.Source
