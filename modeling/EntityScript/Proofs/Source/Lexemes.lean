import EntityScript.Proofs.Source.Scanning
import Mathlib.Computability.Language

/-! # Lexemes

The lexemes of a program text are regular languages, one for each rule (`Rule.language`). Of all
lexemes with which a text starts the longest is taken, and a keyword rather than a name
(`Taken`); there is at most one such (`Taken.unique`). A lexeme is then read as a token or as a
gap (`Rule.Reads`).

For each rule it is said in plain words what its lexemes look like. The insides of strings and of
block comments are what the scanner reads up to the first end: `stringInside?_of_mem`,
`mem_of_stringInside?`, `blockRest?_of_mem`, `mem_of_blockRest?`. -/

namespace EntityScript.Source

open scoped Computability

/-! ## Languages of characters -/

/-- One character with a property. -/
def oneOf (p : Char → Bool) : Language Char := {w | ∃ c, p c = true ∧ w = [c]}

/-- One text of a language, or more of them. -/
def many (l : Language Char) : Language Char := l * l∗

theorem mem_oneOf {p : Char → Bool} {w : List Char} :
    w ∈ oneOf p ↔ ∃ c, p c = true ∧ w = [c] :=
  Iff.rfl

theorem mem_star_oneOf {p : Char → Bool} {w : List Char} :
    w ∈ (oneOf p)∗ ↔ ∀ c ∈ w, p c = true := by
  rw [Language.mem_kstar]
  constructor
  · rintro ⟨parts, rfl, hparts⟩ c hc
    obtain ⟨part, hpart, hmem⟩ := List.mem_flatten.mp hc
    obtain ⟨d, hd, rfl⟩ := hparts part hpart
    rwa [List.mem_singleton.mp hmem]
  · intro hall
    refine ⟨w.map fun c => [c], by simp [← List.flatMap_def], ?_⟩
    intro part hpart
    obtain ⟨c, hc, rfl⟩ := List.mem_map.mp hpart
    exact ⟨c, hall c hc, rfl⟩

theorem mem_many_oneOf {p : Char → Bool} {w : List Char} :
    w ∈ many (oneOf p) ↔ w ≠ [] ∧ ∀ c ∈ w, p c = true := by
  rw [many, Language.mem_mul]
  constructor
  · rintro ⟨a, ⟨c, hc, rfl⟩, b, hb, rfl⟩
    exact ⟨by simp, List.forall_mem_cons.mpr ⟨hc, mem_star_oneOf.mp hb⟩⟩
  · rintro ⟨hne, hall⟩
    obtain ⟨c, cs, rfl⟩ := List.exists_cons_of_ne_nil hne
    rw [List.forall_mem_cons] at hall
    exact ⟨[c], ⟨c, hall.1, rfl⟩, cs, mem_star_oneOf.mpr hall.2, rfl⟩

theorem mem_singleton_mul {v w : List Char} {l : Language Char} :
    w ∈ ({v} : Language Char) * l ↔ ∃ x ∈ l, w = v ++ x := by
  rw [Language.mem_mul]
  constructor
  · rintro ⟨_, hv, x, hx, rfl⟩
    cases hv
    exact ⟨x, hx, rfl⟩
  · rintro ⟨x, hx, rfl⟩
    exact ⟨v, rfl, x, hx, rfl⟩

/-- A text of characters with a property goes as far as all of them, or less far. -/
theorem length_le_takeWhile {p : Char → Bool} {w cs : List Char} (hw : ∀ c ∈ w, p c = true)
    (h : w <+: cs) : w.length ≤ (cs.takeWhile p).length := by
  obtain ⟨rest, rfl⟩ := h
  simp [List.takeWhile_append_of_pos hw]

/-! ## Rules -/

/-- A rule of the lexical grammar. -/
inductive Rule where
  | keyword (k : Keyword)
  | mark (m : Mark)
  | number
  | string
  | word
  | blanks
  | lineComment
  | hashComment
  | blockComment
  deriving DecidableEq

namespace Rule

/-- Digits. -/
def digits : Language Char := many (oneOf Char.isDigit)

/-- The inside of a string: characters other than a quote and a backslash, and a backslash with
any character behind it but a line feed. -/
def inside : Language Char :=
  (oneOf (fun c => c != '"' && c != '\\') + {['\\']} * oneOf (· != '\n'))∗

/-- Stars. -/
def stars : Language Char := many (oneOf (· == '*'))

/-- The inside of a block comment before the stars at its end: characters other than a star, and
stars with a character behind them that neither goes on nor ends the comment. -/
def body : Language Char :=
  (oneOf (· != '*') + stars * oneOf (fun c => c != '*' && c != '/'))∗

/-- The lexemes of a rule. -/
def language : Rule → Language Char
  | keyword k => {k.text.toList}
  | mark m => {m.text.toList}
  | number => digits * (1 + {['.']} * digits)
  | string => {['"']} * inside * {['"']}
  | word => oneOf isWordStart * (oneOf isWordChar)∗
  | blanks => many (oneOf isGapChar)
  | lineComment => {['/', '/']} * (oneOf (· != '\n'))∗
  | hashComment => {['#']} * (oneOf (· != '\n'))∗
  | blockComment => {['/', '*']} * body * stars * {['/']}

/-- Whether a rule yields no token. -/
def isGap : Rule → Bool
  | blanks | lineComment | hashComment | blockComment => true
  | _ => false

/-- Whether a rule yields a word. -/
def isWord : Rule → Bool
  | keyword _ | word => true
  | _ => false

end Rule

/-- Of all lexemes with which the characters start, `w` is the longest, and no other rule has it
but that of names, if it is a keyword. -/
structure Taken (r : Rule) (w cs : List Char) : Prop where
  isPrefix : w <+: cs
  mem : w ∈ r.language
  longest : ∀ (r' : Rule) x, x <+: cs → x ∈ r'.language → x.length ≤ w.length
  preferred : ∀ r' : Rule, w ∈ r'.language → r' = r ∨ (r' = .word ∧ ∃ k, r = .keyword k)

theorem Taken.unique {r r' : Rule} {w w' cs : List Char} (h : Taken r w cs)
    (h' : Taken r' w' cs) : r = r' ∧ w = w' := by
  have hlength : w.length = w'.length :=
    Nat.le_antisymm (h'.longest r w h.isPrefix h.mem) (h.longest r' w' h'.isPrefix h'.mem)
  have hpre : w <+: w' := List.prefix_of_prefix_length_le h.isPrefix h'.isPrefix hlength.le
  obtain rfl := hpre.eq_of_length hlength
  refine ⟨?_, rfl⟩
  rcases h.preferred r' h'.mem with heq | ⟨rfl, k, rfl⟩
  · exact heq.symm
  · rcases h'.preferred _ h.mem with heq | ⟨heq, _⟩
    · exact heq
    · cases heq

/-! ## How lexemes are read -/

/-- The escapes of a string: the character behind the backslash, and what they stand for. -/
def escapes : List (Char × Char) :=
  [('n', '\n'), ('t', '\t'), ('r', '\r'), ('"', '"'), ('\\', '\\')]

/-- What the inside of a string stands for. -/
inductive Decodes : List Char → List Char → Prop
  | nil : Decodes [] []
  | plain {c : Char} {cs ds : List Char} : c ≠ '\\' → Decodes cs ds → Decodes (c :: cs) (c :: ds)
  | escape {c d : Char} {cs ds : List Char} :
    (c, d) ∈ escapes → Decodes cs ds → Decodes ('\\' :: c :: cs) (d :: ds)

/-- The inside of a string has an escape that stands for nothing. -/
def UnknownEscape (cs : List Char) : Prop :=
  ∃ before ds c after, cs = before ++ '\\' :: c :: after ∧ Decodes before ds ∧
    ∀ d, (c, d) ∉ escapes

/-- A lexeme of a rule is read as a token or as a gap. -/
inductive Rule.Reads : Rule → List Char → Lexeme → Prop
  | keyword (k : Keyword) (w : List Char) : Reads (.keyword k) w (.token (.keyword k))
  | mark (m : Mark) (w : List Char) : Reads (.mark m) w (.token (.mark m))
  | number {w : List Char} {n : Float} :
    Number.read? (String.ofList w) = some n → Reads .number w (.token (.number n))
  | string {inside ds : List Char} : Decodes inside ds →
    Reads .string ('"' :: inside ++ ['"']) (.token (.string (String.ofList ds)))
  | word (w : List Char) : Reads .word w (.token (.ident (String.ofList w)))
  | gap {r : Rule} (w : List Char) : r.isGap = true → Reads r w .gap

/-! ## What the lexemes of a rule look like -/

section Shapes

variable {w : List Char}

theorem mem_keyword {k : Keyword} : w ∈ (Rule.keyword k).language ↔ w = k.text.toList := Iff.rfl

theorem mem_mark {m : Mark} : w ∈ (Rule.mark m).language ↔ w = m.text.toList := Iff.rfl

theorem mem_number : w ∈ Rule.number.language ↔ Number.Numeral w := by
  simp only [Rule.language, Rule.digits, Language.mem_mul, mem_many_oneOf, Language.mem_add,
    Language.mem_one]
  constructor
  · rintro ⟨ds, ⟨hne, hds⟩, tail, rfl | ⟨point, hpoint, ps, ⟨hne', hps⟩, rfl⟩, rfl⟩
    · simpa using Number.Numeral.whole hne hds
    · cases hpoint
      exact .point hne hds hne' hps
  · intro h
    cases h with
    | whole hne hds => exact ⟨_, ⟨hne, hds⟩, [], .inl rfl, by simp⟩
    | point hne hds hne' hps =>
      exact ⟨_, ⟨hne, hds⟩, _, .inr ⟨['.'], rfl, _, ⟨hne', hps⟩, rfl⟩, rfl⟩

theorem mem_string : w ∈ Rule.string.language ↔
    ∃ inside ∈ Rule.inside, w = '"' :: inside ++ ['"'] := by
  rw [Rule.language, mul_assoc, mem_singleton_mul]
  constructor
  · rintro ⟨_, ⟨inside, hinside, _, hclose, rfl⟩, rfl⟩
    cases hclose
    exact ⟨inside, hinside, rfl⟩
  · rintro ⟨inside, hinside, rfl⟩
    exact ⟨_, ⟨inside, hinside, _, rfl, rfl⟩, rfl⟩

theorem mem_word : w ∈ Rule.word.language ↔
    ∃ c cs, w = c :: cs ∧ isWordStart c = true ∧ ∀ d ∈ cs, isWordChar d = true := by
  simp only [Rule.language, Language.mem_mul, mem_star_oneOf]
  constructor
  · rintro ⟨_, ⟨c, hc, rfl⟩, cs, hcs, rfl⟩
    exact ⟨c, cs, rfl, hc, hcs⟩
  · rintro ⟨c, cs, rfl, hc, hcs⟩
    exact ⟨_, ⟨c, hc, rfl⟩, cs, hcs, rfl⟩

theorem mem_blanks : w ∈ Rule.blanks.language ↔ w ≠ [] ∧ ∀ c ∈ w, isGapChar c = true :=
  mem_many_oneOf

theorem mem_lineComment : w ∈ Rule.lineComment.language ↔
    ∃ cs, (∀ c ∈ cs, (c != '\n') = true) ∧ w = '/' :: '/' :: cs := by
  simp only [Rule.language, mem_singleton_mul, mem_star_oneOf]
  rfl

theorem mem_hashComment : w ∈ Rule.hashComment.language ↔
    ∃ cs, (∀ c ∈ cs, (c != '\n') = true) ∧ w = '#' :: cs := by
  simp only [Rule.language, mem_singleton_mul, mem_star_oneOf]
  rfl

theorem mem_blockComment : w ∈ Rule.blockComment.language ↔
    ∃ inner ∈ Rule.body * Rule.stars * {['/']}, w = '/' :: '*' :: inner := by
  simp only [Rule.language, mul_assoc, mem_singleton_mul]
  rfl

end Shapes

/-! ## Inside strings -/

/-- A character of a string, or a backslash with the character behind it. -/
def StringUnit (u : List Char) : Prop :=
  (∃ c, u = [c] ∧ c ≠ '"' ∧ c ≠ '\\') ∨ ∃ c, u = ['\\', c] ∧ c ≠ '\n'

theorem mem_inside {w : List Char} : w ∈ Rule.inside ↔
    ∃ units : List (List Char), w = units.flatten ∧ ∀ u ∈ units, StringUnit u := by
  have hunit : ∀ u, u ∈ oneOf (fun c => c != '"' && c != '\\') + {['\\']} * oneOf (· != '\n') ↔
      StringUnit u := by
    intro u
    simp only [Language.mem_add, mem_singleton_mul, mem_oneOf, StringUnit, Bool.and_eq_true,
      bne_iff_ne]
    constructor
    · rintro (⟨c, hc, rfl⟩ | ⟨_, ⟨c, hc, rfl⟩, rfl⟩)
      · exact .inl ⟨c, rfl, hc⟩
      · exact .inr ⟨c, rfl, hc⟩
    · rintro (⟨c, rfl, hc⟩ | ⟨c, rfl, hc⟩)
      · exact .inl ⟨c, hc, rfl⟩
      · exact .inr ⟨_, ⟨c, hc, rfl⟩, rfl⟩
  simp only [Rule.inside, Language.mem_kstar, hunit]

theorem stringInside?_unit {u : List Char} (hu : StringUnit u) (cs : List Char) :
    stringInside? (u ++ cs) = (stringInside? cs).map (u ++ ·) := by
  rcases hu with ⟨c, rfl, hquote, hslash⟩ | ⟨c, rfl, hc⟩
  · exact stringInside?_plain hquote hslash cs
  · simp [stringInside?, hc]

/-- The inside of a string is read up to the quote that ends it. -/
theorem stringInside?_of_mem {w : List Char} (hw : w ∈ Rule.inside) (rest : List Char) :
    stringInside? (w ++ '"' :: rest) = some w := by
  obtain ⟨units, rfl, hunits⟩ := mem_inside.mp hw
  clear hw
  induction units with
  | nil => rfl
  | cons u units ih =>
    rw [List.forall_mem_cons] at hunits
    have hrest := ih hunits.2
    rw [List.flatten_cons, List.append_assoc, stringInside?_unit hunits.1, hrest]
    rfl

theorem mem_of_stringInside? {cs w : List Char} (h : stringInside? cs = some w) :
    w ∈ Rule.inside ∧ w ++ ['"'] <+: cs := by
  have hcons : ∀ {u v : List Char}, StringUnit u → v ∈ Rule.inside → u ++ v ∈ Rule.inside := by
    intro u v hu hv
    obtain ⟨units, rfl, hunits⟩ := mem_inside.mp hv
    exact mem_inside.mpr ⟨u :: units, rfl, List.forall_mem_cons.mpr ⟨hu, hunits⟩⟩
  fun_induction stringInside? cs generalizing w with
  | case1 => cases h
  | case2 cs =>
    cases h
    exact ⟨mem_inside.mpr ⟨[], rfl, by simp⟩, by simp⟩
  | case3 => cases h
  | case4 => cases h
  | case5 c cs hc ih =>
    obtain ⟨v, hv, rfl⟩ := Option.map_eq_some_iff.mp h
    obtain ⟨hmem, hpre⟩ := ih hv
    exact ⟨hcons (u := ['\\', c]) (.inr ⟨c, rfl, hc⟩) hmem, by simpa using hpre⟩
  | case6 c cs hquote hend hslash ih =>
    obtain ⟨v, hv, rfl⟩ := Option.map_eq_some_iff.mp h
    obtain ⟨hmem, hpre⟩ := ih hv
    have hplain : c ≠ '\\' := by
      rintro rfl
      cases cs with
      | nil => exact hend rfl rfl
      | cons d cs => exact hslash d cs rfl rfl
    exact ⟨hcons (u := [c]) (.inl ⟨c, rfl, hquote, hplain⟩) hmem, by simpa using hpre⟩

/-! ## Inside block comments -/

/-- A character that is no star, or stars and a character that neither goes on nor ends the
comment. -/
def BlockUnit (u : List Char) : Prop :=
  (∃ c, u = [c] ∧ c ≠ '*') ∨
    ∃ n c, u = List.replicate (n + 1) '*' ++ [c] ∧ c ≠ '*' ∧ c ≠ '/'

theorem mem_stars {w : List Char} : w ∈ Rule.stars ↔ ∃ n, w = List.replicate (n + 1) '*' := by
  rw [Rule.stars, mem_many_oneOf]
  constructor
  · rintro ⟨hne, hall⟩
    have hw : w = List.replicate w.length '*' :=
      List.eq_replicate_of_mem fun c hc => by simpa using hall c hc
    obtain ⟨c, cs, rfl⟩ := List.exists_cons_of_ne_nil hne
    exact ⟨cs.length, hw⟩
  · rintro ⟨n, rfl⟩
    simp

theorem mem_closing {w : List Char} : w ∈ Rule.body * Rule.stars * {['/']} ↔
    ∃ (units : List (List Char)) (n : Nat), (∀ u ∈ units, BlockUnit u) ∧
      w = units.flatten ++ List.replicate (n + 1) '*' ++ ['/'] := by
  have hunit : ∀ u, u ∈ oneOf (· != '*') + Rule.stars * oneOf (fun c => c != '*' && c != '/') ↔
      BlockUnit u := by
    intro u
    simp only [Language.mem_add, Language.mem_mul, mem_oneOf, mem_stars, BlockUnit,
      Bool.and_eq_true, bne_iff_ne]
    constructor
    · rintro (⟨c, hc, rfl⟩ | ⟨_, ⟨n, rfl⟩, _, ⟨c, hc, rfl⟩, rfl⟩)
      · exact .inl ⟨c, rfl, hc⟩
      · exact .inr ⟨n, c, rfl, hc⟩
    · rintro (⟨c, rfl, hc⟩ | ⟨n, c, rfl, hc⟩)
      · exact .inl ⟨c, hc, rfl⟩
      · exact .inr ⟨_, ⟨n, rfl⟩, _, ⟨c, hc, rfl⟩, rfl⟩
  simp only [Language.mem_mul, Rule.body, Language.mem_kstar, hunit, mem_stars]
  constructor
  · rintro ⟨_, ⟨_, ⟨units, rfl, hunits⟩, _, ⟨n, rfl⟩, rfl⟩, _, hend, rfl⟩
    cases hend
    exact ⟨units, n, hunits, rfl⟩
  · rintro ⟨units, n, hunits, rfl⟩
    exact ⟨_, ⟨_, ⟨units, rfl, hunits⟩, _, ⟨n, rfl⟩, rfl⟩, _, rfl, rfl⟩

theorem blockRest?_cons {c : Char} {cs : List Char} (h : c = '*' → cs.head? ≠ some '/') :
    blockRest? (c :: cs) = (blockRest? cs).map (c :: ·) := by
  rw [blockRest?]
  rintro tail rfl rfl
  exact h rfl rfl

theorem blockRest?_stars (n : Nat) {c : Char} (hstar : c ≠ '*') (hslash : c ≠ '/')
    (cs : List Char) : blockRest? (List.replicate n '*' ++ c :: cs) =
      (blockRest? cs).map (List.replicate n '*' ++ c :: ·) := by
  induction n with
  | zero => exact blockRest?_cons (by simp [hstar])
  | succ n ih =>
    rw [List.replicate_succ, List.cons_append, blockRest?_cons, ih, Option.map_map]
    · rfl
    · cases n <;> simp [List.replicate_succ, hslash]

theorem blockRest?_end (n : Nat) (rest : List Char) :
    blockRest? (List.replicate (n + 1) '*' ++ '/' :: rest) =
      some (List.replicate (n + 1) '*' ++ ['/']) := by
  induction n with
  | zero => rfl
  | succ n ih =>
    rw [List.replicate_succ, List.cons_append, blockRest?_cons, ih]
    · rfl
    · simp [List.replicate_succ]

theorem blockRest?_unit {u : List Char} (hu : BlockUnit u) (cs : List Char) :
    blockRest? (u ++ cs) = (blockRest? cs).map (u ++ ·) := by
  rcases hu with ⟨c, rfl, hc⟩ | ⟨n, c, rfl, hstar, hslash⟩
  · exact blockRest?_cons fun heq => absurd heq hc
  · simpa using blockRest?_stars (n + 1) hstar hslash cs

/-- A block comment goes to its first end. -/
theorem blockRest?_of_mem {w : List Char} (hw : w ∈ Rule.body * Rule.stars * {['/']})
    (rest : List Char) : blockRest? (w ++ rest) = some w := by
  obtain ⟨units, n, hunits, rfl⟩ := mem_closing.mp hw
  clear hw
  induction units with
  | nil => simpa using blockRest?_end n rest
  | cons u units ih =>
    rw [List.forall_mem_cons] at hunits
    have hrest := ih hunits.2
    simp only [List.flatten_cons, List.append_assoc] at hrest ⊢
    rw [blockRest?_unit hunits.1, hrest]
    rfl

theorem mem_of_blockRest? {cs w : List Char} (h : blockRest? cs = some w) :
    w ∈ Rule.body * Rule.stars * {['/']} ∧ w <+: cs := by
  fun_induction blockRest? cs generalizing w with
  | case1 => cases h
  | case2 tail =>
    cases h
    exact ⟨mem_closing.mpr ⟨[], 0, by simp, rfl⟩, by simp⟩
  | case3 c cs hnext ih =>
    obtain ⟨v, hv, rfl⟩ := Option.map_eq_some_iff.mp h
    obtain ⟨hmem, hpre⟩ := ih hv
    refine ⟨?_, by simpa using hpre⟩
    obtain ⟨units, n, hunits, rfl⟩ := mem_closing.mp hmem
    rw [mem_closing]
    by_cases hc : c = '*'
    · subst hc
      -- the star joins the stars or the character behind it
      cases units with
      | nil => exact ⟨[], n + 1, by simp, by simp [List.replicate_succ]⟩
      | cons u units =>
        rw [List.forall_mem_cons] at hunits
        rcases hunits.1 with ⟨d, rfl, hd⟩ | ⟨k, d, rfl, hstar, hslash⟩
        · have hslash : d ≠ '/' := by
            rintro rfl
            obtain ⟨rest, hrest⟩ := hpre
            exact hnext _ rfl (by rw [← hrest]; rfl)
          exact ⟨['*', d] :: units, n,
            List.forall_mem_cons.mpr ⟨.inr ⟨0, d, rfl, hd, hslash⟩, hunits.2⟩, by simp⟩
        · exact ⟨(List.replicate (k + 2) '*' ++ [d]) :: units, n,
            List.forall_mem_cons.mpr ⟨.inr ⟨k + 1, d, rfl, hstar, hslash⟩, hunits.2⟩,
            by simp [List.replicate_succ]⟩
    · exact ⟨[c] :: units, n, List.forall_mem_cons.mpr ⟨.inl ⟨c, rfl, hc⟩, hunits⟩, by simp⟩

end EntityScript.Source
