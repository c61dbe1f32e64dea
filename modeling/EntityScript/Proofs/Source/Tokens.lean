import EntityScript.Proofs.Source.LongestMatch

/-! # The tokens of a text

A text is scanned from left to right, one lexeme after another. `Tokenized` says what the tokens
are: stretches of the text, one behind the other, each the longest lexeme at its place and read as
that lexeme is to be read, with nothing but gaps before, between and behind them. If there is a
place where the scan gets stuck (`Stuck`), the first such place is reported. `scan_exact` puts
both together. -/

namespace EntityScript.Source

/-! ## Bytes -/

theorem byteSize_append (cs ds : List Char) : byteSize (cs ++ ds) = byteSize cs + byteSize ds := by
  induction cs with
  | nil => simp [byteSize]
  | cons c cs ih => simp [byteSize, ih, Nat.add_assoc]

theorem byteSize_eq_zero {cs : List Char} (h : byteSize cs = 0) : cs = [] := by
  cases cs with
  | nil => rfl
  | cons c cs =>
    have hpos := c.utf8Size_pos
    simp only [byteSize] at h
    omega

theorem byteSize_pos {cs : List Char} (h : cs ≠ []) : 0 < byteSize cs :=
  Nat.pos_of_ne_zero fun hzero => h (byteSize_eq_zero hzero)

/-- In a text that starts at byte `offset`, the characters `w` stand from byte `start` up to byte
`stop`, and `rest` follows. -/
def Stands (offset : Nat) (cs : List Char) (start stop : Nat) (w rest : List Char) : Prop :=
  ∃ before, cs = before ++ w ++ rest ∧ start = offset + byteSize before ∧ stop = start + byteSize w

theorem Stands.here (offset : Nat) (w rest : List Char) :
    Stands offset (w ++ rest) offset (offset + byteSize w) w rest :=
  ⟨[], rfl, rfl, rfl⟩

theorem Stands.behind {offset start stop : Nat} {cs w rest : List Char} (v : List Char)
    (h : Stands (offset + byteSize v) cs start stop w rest) :
    Stands offset (v ++ cs) start stop w rest := by
  obtain ⟨before, rfl, rfl, rfl⟩ := h
  refine ⟨v ++ before, by simp, ?_, rfl⟩
  rw [byteSize_append, Nat.add_assoc]

/-- What stands at the first byte stands at the start. -/
theorem Stands.eq_append {offset stop : Nat} {cs w rest : List Char}
    (h : Stands offset cs offset stop w rest) : cs = w ++ rest ∧ stop = offset + byteSize w := by
  obtain ⟨before, rfl, hstart, rfl⟩ := h
  have hbefore : before = [] := byteSize_eq_zero (by omega)
  simp [hbefore]

/-! ## Tokens and gaps -/

/-- Any number of blanks and comments. -/
def gaps : Language Char :=
  KStar.kstar (Rule.blanks.language + Rule.lineComment.language + Rule.hashComment.language +
    Rule.blockComment.language)

theorem nil_mem_gaps : [] ∈ gaps := Language.nil_mem_kstar _

theorem append_mem_gaps {r : Rule} {w g : List Char} (hr : r.isGap = true) (hw : w ∈ r.language)
    (hg : g ∈ gaps) : w ++ g ∈ gaps := by
  obtain ⟨parts, rfl, hparts⟩ := Language.mem_kstar.mp hg
  refine Language.mem_kstar.mpr ⟨w :: parts, rfl, List.forall_mem_cons.mpr ⟨?_, hparts⟩⟩
  simp only [Language.mem_add]
  cases r with
  | blanks => exact .inl (.inl (.inl hw))
  | lineComment => exact .inl (.inl (.inr hw))
  | hashComment => exact .inl (.inr hw)
  | blockComment => exact .inr hw
  | _ => cases hr

/-- The stretches before, between and behind the tokens, from byte `start` up to byte `stop`. -/
def between (start stop : Nat) : List Spanned → List (Nat × Nat)
  | [] => [(start, stop)]
  | s :: ss => (start, s.start) :: between s.stop stop ss

/-- The tokens of a text that starts at byte `offset`. -/
structure Tokenized (offset : Nat) (cs : List Char) (ss : List Spanned) : Prop where
  nonempty : ∀ s ∈ ss, s.start < s.stop
  inBounds : ∀ s ∈ ss, offset ≤ s.start ∧ s.stop ≤ offset + byteSize cs
  ordered : ss.Pairwise fun a b => a.stop ≤ b.start
  gap : ∀ b ∈ between offset (offset + byteSize cs) ss,
    ∃ w ∈ gaps, ∃ rest, Stands offset cs b.1 b.2 w rest
  lexeme : ∀ s ∈ ss, ∃ r w rest, Stands offset cs s.start s.stop w rest ∧
    Taken r w (w ++ rest) ∧ r.Reads w (.token s.token)
  apart : ss.IsChain fun a b =>
    a.token.isNumber = true → b.token.isWord = true → a.stop ≠ b.start

/-! ## Words -/

theorem startsWord_of_taken {r : Rule} {w cs : List Char} (h : Taken r w cs)
    (hr : r.isWord = true) : startsWord cs = true := by
  obtain ⟨c, v, rfl, hc⟩ := head_of_mem h.mem
  obtain ⟨rest, rfl⟩ := h.isPrefix
  have hspec := start_spec c
  have hletter : Start.of c = .letter := by
    rw [hc]
    cases r with
    | keyword | word => rfl
    | _ => cases hr
  rw [hletter] at hspec
  exact hspec

theorem taken_of_startsWord {cs : List Char} (h : startsWord cs = true) :
    ∃ r w, Taken r w cs ∧ r.isWord = true := by
  cases cs with
  | nil => cases h
  | cons c cs =>
    refine ⟨_, _, taken_word h, ?_⟩
    unfold wordRule
    split <;> rfl

theorem Rule.Reads.isWord {r : Rule} {w : List Char} {t : Token} (h : r.Reads w (.token t)) :
    r.isWord = t.isWord := by
  cases h <;> rfl

theorem Rule.Reads.isNumber {r : Rule} {w : List Char} {t : Token} (h : r.Reads w (.token t)) :
    t.isNumber = true ↔ r = .number := by
  cases h <;> simp [Token.isNumber]

/-! ## One lexeme more -/

namespace Tokenized

variable {offset : Nat} {rest w : List Char} {ss : List Spanned} {r : Rule}

theorem nil (offset : Nat) : Tokenized offset [] [] where
  nonempty := by simp
  inBounds := by simp
  ordered := .nil
  gap := by
    intro b hb
    rw [List.mem_singleton.mp hb]
    exact ⟨[], nil_mem_gaps, [], Stands.here offset [] []⟩
  lexeme := by simp
  apart := .nil

theorem behindGap (h : Tokenized (offset + byteSize w) rest ss) (hr : r.isGap = true)
    (hw : w ∈ r.language) : Tokenized offset (w ++ rest) ss where
  nonempty := h.nonempty
  inBounds := by
    intro s hs
    have hbounds := h.inBounds s hs
    rw [byteSize_append]
    omega
  ordered := h.ordered
  gap := by
    -- the first stretch gets longer by `w`, and the others stay
    rw [byteSize_append, ← Nat.add_assoc]
    have hfirst : ∀ stop, (∃ g ∈ gaps, ∃ rest', Stands (offset + byteSize w) rest
        (offset + byteSize w) stop g rest') →
        ∃ g ∈ gaps, ∃ rest', Stands offset (w ++ rest) offset stop g rest' := by
      rintro stop ⟨g, hg, rest', hstands⟩
      obtain ⟨rfl, rfl⟩ := hstands.eq_append
      refine ⟨w ++ g, append_mem_gaps hr hw hg, rest', ?_⟩
      have hhere := Stands.here offset (w ++ g) rest'
      rwa [byteSize_append, List.append_assoc, ← Nat.add_assoc] at hhere
    have hgap := h.gap
    cases ss with
    | nil =>
      intro b hb
      rw [List.mem_singleton.mp hb]
      exact hfirst _ (hgap _ (List.mem_singleton_self _))
    | cons s ss =>
      rw [between, List.forall_mem_cons] at hgap ⊢
      refine ⟨hfirst _ hgap.1, ?_⟩
      intro b hb
      obtain ⟨g, hg, rest', hstands⟩ := hgap.2 b hb
      exact ⟨g, hg, rest', hstands.behind w⟩
  lexeme := by
    intro s hs
    obtain ⟨r', x, rest', hstands, hx⟩ := h.lexeme s hs
    exact ⟨r', x, rest', hstands.behind w, hx⟩
  apart := h.apart

theorem behindToken {t : Token} (h : Tokenized (offset + byteSize w) rest ss)
    (htaken : Taken r w (w ++ rest)) (hreads : r.Reads w (.token t))
    (hglued : t.isNumber = true → startsWord rest = false) :
    Tokenized offset (w ++ rest) (⟨t, offset, offset + byteSize w⟩ :: ss) where
  nonempty := by
    obtain ⟨c, v, hw, _⟩ := head_of_mem htaken.mem
    refine List.forall_mem_cons.mpr ⟨?_, h.nonempty⟩
    exact Nat.lt_add_of_pos_right (byteSize_pos (by simp [hw]))
  inBounds := by
    rw [byteSize_append]
    refine List.forall_mem_cons.mpr ⟨by dsimp only; omega, ?_⟩
    intro s hs
    have hbounds := h.inBounds s hs
    omega
  ordered := List.pairwise_cons.mpr ⟨fun s hs => (h.inBounds s hs).1, h.ordered⟩
  gap := by
    rw [between, List.forall_mem_cons, byteSize_append, ← Nat.add_assoc]
    refine ⟨⟨[], nil_mem_gaps, w ++ rest, Stands.here offset [] (w ++ rest)⟩, ?_⟩
    intro b hb
    obtain ⟨g, hg, rest', hstands⟩ := h.gap b hb
    exact ⟨g, hg, rest', hstands.behind w⟩
  lexeme := by
    refine List.forall_mem_cons.mpr ⟨⟨r, w, rest, Stands.here offset w rest, htaken, hreads⟩, ?_⟩
    intro s hs
    obtain ⟨r', x, rest', hstands, hx⟩ := h.lexeme s hs
    exact ⟨r', x, rest', hstands.behind w, hx⟩
  apart := by
    cases ss with
    | nil => exact .singleton _
    | cons s ss =>
      refine List.isChain_cons_cons.mpr ⟨?_, h.apart⟩
      intro hnumber hword hstop
      obtain ⟨r', x, rest', hstands, htaken', hreads'⟩ := h.lexeme s List.mem_cons_self
      dsimp only at hstop
      rw [← hstop] at hstands
      rw [hstands.eq_append.1,
        startsWord_of_taken htaken' (hreads'.isWord.trans hword)] at hglued
      cases hglued hnumber

end Tokenized

/-! ## Where the scan gets stuck -/

/-- No token can be read here: no lexeme starts here, or a string with an unknown escape, or a
number with a word right behind it. -/
inductive Stuck : List Char → Prop
  | noLexeme {cs : List Char} : cs ≠ [] → (∀ (r : Rule) w, w <+: cs → w ∉ r.language) → Stuck cs
  | unknownEscape {cs inside : List Char} :
    Taken .string ('"' :: inside ++ ['"']) cs → UnknownEscape inside → Stuck cs
  | glued {w rest w' : List Char} {r : Rule} :
    Taken .number w (w ++ rest) → Taken r w' rest → r.isWord = true → Stuck (w ++ rest)

/-- Scanning from left to right by longest match passes `before`, without getting stuck, and
gets to `rest`. -/
inductive Reaches : List Char → List Char → List Char → Prop
  | here (cs : List Char) : Reaches cs [] cs
  | past {r : Rule} {w rest before rest' : List Char} {l : Lexeme} :
    Taken r w (w ++ rest) → r.Reads w l →
    (r = .number → ∀ (r' : Rule) w', Taken r' w' rest → r'.isWord = false) →
    Reaches rest before rest' → Reaches (w ++ rest) (w ++ before) rest'

/-- Where the scan gets stuck when it starts at byte `offset`. -/
def StuckAt (offset : Nat) (cs : List Char) (e : Nat) : Prop :=
  ∃ before rest, Reaches cs before rest ∧ Stuck rest ∧ e = offset + byteSize before

theorem StuckAt.here {cs : List Char} (h : Stuck cs) (offset : Nat) : StuckAt offset cs offset :=
  ⟨[], cs, .here cs, h, rfl⟩

theorem StuckAt.behind {offset e : Nat} {r : Rule} {w rest : List Char} {l : Lexeme}
    (h : StuckAt (offset + byteSize w) rest e) (htaken : Taken r w (w ++ rest))
    (hreads : r.Reads w l)
    (hglued : r = .number → ∀ (r' : Rule) w', Taken r' w' rest → r'.isWord = false) :
    StuckAt offset (w ++ rest) e := by
  obtain ⟨before, rest', hreaches, hstuck, rfl⟩ := h
  refine ⟨w ++ before, rest', .past htaken hreads hglued hreaches, hstuck, ?_⟩
  rw [byteSize_append, Nat.add_assoc]

/-! ## The scanner -/

section Scan

variable {r : Rule} {w rest : List Char}

theorem scanFrom_gap (h : Taken r w (w ++ rest)) (hreads : r.Reads w .gap) (fuel offset : Nat) :
    scanFrom (fuel + 1) offset (w ++ rest) = scanFrom fuel (offset + byteSize w) rest := by
  have hlexeme := h.lexeme? hreads
  obtain ⟨c, v, rfl, _⟩ := head_of_mem h.mem
  rw [List.cons_append, scanFrom_cons, ← List.cons_append, hlexeme]
  simp only [List.drop_left]

theorem scanFrom_token {t : Token} (h : Taken r w (w ++ rest)) (hreads : r.Reads w (.token t))
    (fuel offset : Nat) : scanFrom (fuel + 1) offset (w ++ rest) =
      if t.isNumber && startsWord rest then .error offset
      else (scanFrom fuel (offset + byteSize w) rest).map
        fun ss => ⟨t, offset, offset + byteSize w⟩ :: ss := by
  have hlexeme := h.lexeme? hreads
  obtain ⟨c, v, rfl, _⟩ := head_of_mem h.mem
  rw [List.cons_append, scanFrom_cons, ← List.cons_append, hlexeme]
  simp only [List.drop_left]

theorem scanFrom_none {cs : List Char} (hne : cs ≠ []) (h : lexeme? cs = none)
    (fuel offset : Nat) : scanFrom (fuel + 1) offset cs = .error offset := by
  obtain ⟨c, v, rfl⟩ := List.exists_cons_of_ne_nil hne
  rw [scanFrom_cons, h]

/-- A lexeme uses up some of the text. -/
theorem length_rest {fuel : Nat} (h : w ∈ r.language) (hfuel : (w ++ rest).length ≤ fuel + 1) :
    rest.length ≤ fuel := by
  obtain ⟨c, v, rfl, _⟩ := head_of_mem h
  simp only [List.cons_append, List.length_cons, List.length_append] at hfuel
  omega

theorem startsWord_eq_false_iff :
    startsWord rest = false ↔ ∀ (r : Rule) w, Taken r w rest → r.isWord = false := by
  constructor
  · intro h r w htaken
    by_contra hr
    rw [startsWord_of_taken htaken (by simpa using hr)] at h
    cases h
  · intro h
    by_contra hstarts
    obtain ⟨r, w, htaken, hr⟩ := taken_of_startsWord (by simpa using hstarts)
    rw [h r w htaken] at hr
    cases hr

/-- The result of a scan is right, whichever it is. -/
theorem scanFrom_right (fuel offset : Nat) (cs : List Char) (hfuel : cs.length ≤ fuel) :
    match scanFrom fuel offset cs with
    | .ok ss => Tokenized offset cs ss
    | .error e => StuckAt offset cs e := by
  induction fuel generalizing offset cs with
  | zero =>
    cases List.length_eq_zero_iff.mp (Nat.le_zero.mp hfuel)
    exact .nil offset
  | succ fuel ih =>
    by_cases hne : cs = []
    · subst hne
      exact .nil offset
    cases hlexeme : lexeme? cs with
    | none =>
      rw [scanFrom_none hne hlexeme]
      refine .here ?_ offset
      rcases lexeme?_eq_none hlexeme with hno | ⟨inside, htaken, hunknown⟩
      · exact .noLexeme hne hno
      · exact .unknownEscape htaken hunknown
    | some x =>
      obtain ⟨l, w⟩ := x
      obtain ⟨r, htaken, hreads⟩ := taken_of_lexeme? hlexeme
      obtain ⟨rest, rfl⟩ := htaken.isPrefix
      have hrest := ih (offset + byteSize w) rest (length_rest htaken.mem hfuel)
      cases l with
      | gap =>
        have hr : r.isGap = true := by
          cases hreads with
          | gap _ hgap => exact hgap
        rw [scanFrom_gap htaken hreads]
        cases hscan : scanFrom fuel (offset + byteSize w) rest with
        | ok ss =>
          rw [hscan] at hrest
          exact hrest.behindGap hr htaken.mem
        | error e =>
          rw [hscan] at hrest
          refine hrest.behind htaken hreads ?_
          rintro rfl
          cases hr
      | token t =>
        rw [scanFrom_token htaken hreads]
        by_cases hglued : t.isNumber = true ∧ startsWord rest = true
        · obtain ⟨r', w', htaken', hr'⟩ := taken_of_startsWord hglued.2
          cases hreads.isNumber.mp hglued.1
          simp only [hglued, Bool.and_self, if_true]
          exact .here (.glued htaken htaken' hr') offset
        · have hapart : t.isNumber = true → startsWord rest = false := by simpa using hglued
          rw [if_neg (by simpa using hglued)]
          cases hscan : scanFrom fuel (offset + byteSize w) rest with
          | ok ss =>
            rw [hscan] at hrest
            exact hrest.behindToken htaken hreads hapart
          | error e =>
            rw [hscan] at hrest
            refine hrest.behind htaken hreads ?_
            intro hr
            exact startsWord_eq_false_iff.mp (hapart (hreads.isNumber.mpr hr))

/-- The scanner does not get past a place where the scan is stuck. -/
theorem scanFrom_error_of_stuck {cs : List Char} (h : Stuck cs) (fuel offset : Nat) :
    scanFrom (fuel + 1) offset cs = .error offset := by
  cases h with
  | noLexeme hne hno =>
    refine scanFrom_none hne ?_ fuel offset
    rw [Option.eq_none_iff_forall_ne_some]
    rintro ⟨l, w⟩ hlexeme
    obtain ⟨r, htaken, _⟩ := taken_of_lexeme? hlexeme
    exact hno r w htaken.isPrefix htaken.mem
  | unknownEscape htaken hunknown =>
    obtain ⟨rest, rfl⟩ := htaken.isPrefix
    refine scanFrom_none (by simp) ?_ fuel offset
    rw [Option.eq_none_iff_forall_ne_some]
    rintro ⟨l, w⟩ hlexeme
    obtain ⟨r, htaken', hreads⟩ := taken_of_lexeme? hlexeme
    obtain ⟨rfl, rfl⟩ := htaken.unique htaken'
    obtain ⟨ds, hread, _⟩ := unescape?_of_reads hreads
    rw [hunknown.unescape?] at hread
    cases hread
  | glued hnumber hword hr =>
    obtain ⟨n, hn⟩ := numeral_read? (mem_number.mp hnumber.mem)
    rw [scanFrom_token hnumber (.number hn)]
    simp [Token.isNumber, startsWord_of_taken hword hr]

theorem Stuck.ne_nil {cs : List Char} (h : Stuck cs) : cs ≠ [] := by
  cases h with
  | noLexeme hne _ => exact hne
  | unknownEscape htaken _ =>
    obtain ⟨rest, rfl⟩ := htaken.isPrefix
    simp
  | glued hnumber _ _ =>
    obtain ⟨c, v, rfl, _⟩ := head_of_mem hnumber.mem
    simp

/-- The scanner passes what is to be passed, up to the place where the scan is stuck. -/
theorem scanFrom_error_of_reaches {cs before rest : List Char} (hreaches : Reaches cs before rest)
    (hstuck : Stuck rest) (fuel offset : Nat) (hfuel : cs.length ≤ fuel) :
    scanFrom fuel offset cs = .error (offset + byteSize before) := by
  induction hreaches generalizing fuel offset with
  | here cs =>
    obtain ⟨c, v, rfl⟩ := List.exists_cons_of_ne_nil hstuck.ne_nil
    obtain ⟨fuel, rfl⟩ := Nat.exists_eq_add_of_le' (Nat.le_trans (Nat.le_add_left 1 v.length) hfuel)
    exact scanFrom_error_of_stuck hstuck fuel offset
  | @past r w rest before rest' l htaken hreads hglued _ ih =>
    obtain ⟨c, v, hw, _⟩ := head_of_mem htaken.mem
    have hpos : 1 ≤ fuel := by
      rw [hw] at hfuel
      simp only [List.cons_append, List.length_cons] at hfuel
      omega
    obtain ⟨fuel, rfl⟩ := Nat.exists_eq_add_of_le' hpos
    have hrest := ih hstuck fuel (offset + byteSize w) (length_rest htaken.mem hfuel)
    rw [Nat.add_assoc, ← byteSize_append] at hrest
    cases l with
    | gap => rw [scanFrom_gap htaken hreads, hrest]
    | token t =>
      have hapart : ¬ (t.isNumber && startsWord rest) = true := by
        intro hboth
        obtain ⟨hnumber, hword⟩ := Bool.and_eq_true_iff.mp hboth
        rw [startsWord_eq_false_iff.mpr (hglued (hreads.isNumber.mp hnumber))] at hword
        cases hword
      rw [scanFrom_token htaken hreads, if_neg hapart, hrest]
      rfl

theorem Reaches.eq_append {cs before rest : List Char} (h : Reaches cs before rest) :
    cs = before ++ rest := by
  induction h with
  | here cs => rfl
  | past _ _ _ _ ih => rw [ih, List.append_assoc]

theorem charsBefore_byteSize (before rest : List Char) :
    Position.charsBefore (byteSize before) (before ++ rest) = before := by
  induction before with
  | nil =>
    cases rest with
    | nil => rfl
    | cons c rest => simp [byteSize, Position.charsBefore, c.utf8Size_pos.ne']
  | cons c before ih => simp [byteSize, Position.charsBefore, ih]

end Scan

/-- **Scanning is exact.** If it succeeds, the tokens are stretches of the text that are not
empty, one behind the other, on borders of characters; each is the longest lexeme at its place
(a keyword only if the whole word is one) and is read as such, strings by the five escapes; all
before, between and behind them is blanks and comments; and no number has a word right behind it.
It fails exactly if, from left to right by longest match, a place is reached where no lexeme
starts, or a string with an unknown escape, or a number with a word right behind it; and what is
reported is the byte, and so the line and the column, at which that place, string or number
starts. -/
theorem scan_exact (source : String) :
    (∀ ss, scan source = .ok ss → Tokenized 0 source.toList ss) ∧
    (∀ e, scan source = .error e ↔ StuckAt 0 source.toList e) ∧
    (∀ before rest, Reaches source.toList before rest →
      Position.ofOffset source (byteSize before) = before.foldl Position.after .start) := by
  have hright := scanFrom_right source.toList.length 0 source.toList (Nat.le_refl _)
  refine ⟨?_, ?_, ?_⟩
  · intro ss hss
    rw [scan] at hss
    rwa [hss] at hright
  · intro e
    constructor
    · intro he
      rw [scan] at he
      rwa [he] at hright
    · rintro ⟨before, rest, hreaches, hstuck, rfl⟩
      exact scanFrom_error_of_reaches hreaches hstuck _ 0 (Nat.le_refl _)
  · intro before rest hreaches
    rw [Position.ofOffset, hreaches.eq_append, charsBefore_byteSize]

/-- A word that only starts with a keyword is a name, also behind a comment that ends in several
stars; an unknown escape and a number with a keyword right behind it are refused. -/
theorem scan_exact_ontick :
    (∃ ss, scan "on/***/ontick" = .ok ss ∧
      ss.map Spanned.token = [.keyword .on, .ident "ontick"] ∧
      Tokenized 0 "on/***/ontick".toList ss) ∧
    StuckAt 0 "say \"\\q\"".toList 4 ∧ StuckAt 0 "a 3on".toList 2 := by
  refine ⟨⟨_, rfl, rfl, (scan_exact "on/***/ontick").1 _ rfl⟩, ?_, ?_⟩
  · exact ((scan_exact "say \"\\q\"").2.1 4).mp rfl
  · exact ((scan_exact "a 3on").2.1 2).mp rfl

end EntityScript.Source
