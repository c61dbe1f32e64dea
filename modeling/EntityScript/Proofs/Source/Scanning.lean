import EntityScript.Proofs.Number.ReadBack
import EntityScript.Snapshot

/-! # Scanning what is written

Characters are scanned one lexeme after another, so a text is scanned from behind: once
its rest scans to some tokens (`Scans`), a lexeme before it adds its own. Each rule says what
may come behind its lexeme: a word ends where no character of a word follows, a mark where
nothing follows that makes it longer, and a string literal ends by itself. -/

namespace EntityScript.Source

/-! ## Lexeme by lexeme -/

/-- The characters scan to these tokens, wherever they stand. -/
def Scans (cs : List Char) (ts : List Token) : Prop :=
  ∀ fuel offset, cs.length ≤ fuel → ∃ ss, scanFrom fuel offset cs = .ok ss ∧
    ss.map Spanned.token = ts

theorem Scans.nil : Scans [] [] := by
  intro fuel offset _
  refine ⟨[], ?_, rfl⟩
  cases fuel <;> rfl

theorem Scans.scan {source : String} {ts : List Token} (h : Scans source.toList ts) :
    ∃ ss, scan source = .ok ss ∧ ss.map Spanned.token = ts :=
  h _ 0 (Nat.le_refl _)

theorem scanFrom_cons (fuel offset : Nat) (c : Char) (cs : List Char) :
    scanFrom (fuel + 1) offset (c :: cs) =
      match lexeme? (c :: cs) with
      | none => .error offset
      | some (.gap, taken) =>
        scanFrom fuel (offset + byteSize taken) ((c :: cs).drop taken.length)
      | some (.token t, taken) =>
        if t.isNumber && startsWord ((c :: cs).drop taken.length) then .error offset
        else (scanFrom fuel (offset + byteSize taken) ((c :: cs).drop taken.length)).map
          fun ts => ⟨t, offset, offset + byteSize taken⟩ :: ts := rfl

theorem Scans.token {taken rest : List Char} {t : Token} {ts : List Token} (hne : taken ≠ [])
    (hlexeme : lexeme? (taken ++ rest) = some (.token t, taken))
    (hnumber : t.isNumber = true → startsWord rest = false) (hrest : Scans rest ts) :
    Scans (taken ++ rest) (t :: ts) := by
  intro fuel offset hfuel
  obtain ⟨c, cs, rfl⟩ := List.exists_cons_of_ne_nil hne
  obtain ⟨fuel, rfl⟩ : ∃ k, fuel = k + 1 := by
    refine ⟨fuel - 1, ?_⟩
    simp only [List.cons_append, List.length_cons] at hfuel
    omega
  have hlength : rest.length ≤ fuel := by
    simp only [List.cons_append, List.length_cons, List.length_append] at hfuel
    omega
  obtain ⟨ss, hss, hts⟩ := hrest fuel (offset + byteSize (c :: cs)) hlength
  have hstarts : (t.isNumber && startsWord rest) = false := by
    cases hn : t.isNumber with
    | false => rfl
    | true => simp [hnumber hn]
  refine ⟨⟨t, offset, offset + byteSize (c :: cs)⟩ :: ss, ?_, by simp [hts]⟩
  rw [List.cons_append, scanFrom_cons, ← List.cons_append, hlexeme]
  simp only [List.drop_left, hstarts, hss]
  rfl

theorem Scans.gap {c : Char} {rest : List Char} {ts : List Token} (hc : isGapChar c = true)
    (hrest : Scans rest ts) : Scans (c :: rest) ts := by
  intro fuel offset hfuel
  obtain ⟨fuel, rfl⟩ : ∃ k, fuel = k + 1 := by
    refine ⟨fuel - 1, ?_⟩
    simp only [List.length_cons] at hfuel
    omega
  have hlength : rest.length ≤ fuel := by simpa using hfuel
  have hlexeme : lexeme? (c :: rest) = some (.gap, c :: rest.takeWhile isGapChar) := by
    simp [lexeme?, hc]
  rw [scanFrom_cons, hlexeme]
  simp only [List.length_cons, List.drop_succ_cons]
  cases rest with
  | nil => exact hrest fuel _ hlength
  | cons d rest =>
    cases hd : isGapChar d with
    | false =>
      simp only [List.takeWhile_cons, hd]
      exact hrest fuel _ hlength
    | true =>
      -- The scan takes all gap characters at once, from here as from behind `c`.
      have hlexeme' : lexeme? (d :: rest) = some (.gap, (d :: rest).takeWhile isGapChar) := by
        simp [lexeme?, hd]
      have hall := hrest (fuel + 1) (offset + c.utf8Size) (Nat.le_succ_of_le hlength)
      rw [scanFrom_cons, hlexeme'] at hall
      simp only [byteSize, Nat.add_assoc] at hall ⊢
      exact hall

/-! ## Words -/

/-- Whether a text is a word: a letter or an underscore, then letters, digits and
underscores. -/
def isWord (w : String) : Bool :=
  match w.toList with
  | [] => false
  | c :: cs => isWordStart c && cs.all isWordChar

/-- Whether a text is a name: a word that is no keyword. -/
def isName (w : String) : Bool := isWord w && (Keyword.ofWord? w).isNone

theorem chars_of_isWord {w : String} (h : isWord w = true) :
    ∃ c cs, w.toList = c :: cs ∧ isWordStart c = true ∧ ∀ d ∈ cs, isWordChar d = true := by
  unfold isWord at h
  split at h
  · cases h
  · rename_i c cs hchars
    simp only [Bool.and_eq_true, List.all_eq_true] at h
    exact ⟨c, cs, hchars, h⟩

/-- No character of a word comes next. -/
def EndsWord (rest : List Char) : Prop := ∀ c, rest.head? = some c → isWordChar c = false

theorem EndsWord.cons {c : Char} (h : isWordChar c = false) (rest : List Char) :
    EndsWord (c :: rest) := by
  intro d hd
  cases hd
  exact h

theorem isWordChar_of_start {c : Char} (h : isWordStart c = true) : isWordChar c = true := by
  simp only [isWordStart, isWordChar, Char.isAlphanum, Bool.or_eq_true] at h ⊢
  rcases h with h | h
  · exact .inl (.inl h)
  · exact .inr h

theorem not_gap_of_wordChar {c : Char} (h : isWordChar c = true) : isGapChar c = false := by
  cases hgap : isGapChar c with
  | false => rfl
  | true =>
    simp only [isGapChar, Bool.or_eq_true, beq_iff_eq] at hgap
    rcases hgap with (((rfl | rfl) | rfl) | rfl) | rfl <;> cases h

theorem takeWhile_wordChars {cs rest : List Char} (hcs : ∀ c ∈ cs, isWordChar c = true)
    (hrest : EndsWord rest) : (cs ++ rest).takeWhile isWordChar = cs := by
  rw [List.takeWhile_append_of_pos hcs]
  cases rest with
  | nil => simp
  | cons c rest => simp [hrest c rfl]

theorem wordToken_isNumber (w : String) : (wordToken w).isNumber = false := by
  unfold wordToken
  split <;> rfl

theorem Scans.word {w : String} (hw : isWord w = true) {rest : List Char} {ts : List Token}
    (hends : EndsWord rest) (hrest : Scans rest ts) :
    Scans (w.toList ++ rest) (wordToken w :: ts) := by
  obtain ⟨c, cs, hchars, hstart, hcs⟩ := chars_of_isWord hw
  have hall : ∀ d ∈ c :: cs, isWordChar d = true :=
    List.forall_mem_cons.mpr ⟨isWordChar_of_start hstart, hcs⟩
  have hgap := not_gap_of_wordChar (isWordChar_of_start hstart)
  have hlexeme : lexeme? (w.toList ++ rest) = some (.token (wordToken w), w.toList) := by
    have htake := takeWhile_wordChars hall hends
    rw [hchars]
    simp only [lexeme?, List.cons_append, hgap, hstart, if_true] at htake ⊢
    rw [htake, ← hchars, String.ofList_toList]
    rfl
  refine .token (by simp [hchars]) hlexeme ?_ hrest
  simp [wordToken_isNumber]

theorem Scans.name {name : String} (h : isName name = true) {rest : List Char} {ts : List Token}
    (hends : EndsWord rest) (hrest : Scans rest ts) :
    Scans (name.toList ++ rest) (.ident name :: ts) := by
  simp only [isName, Bool.and_eq_true, Option.isNone_iff_eq_none] at h
  have hscans := hrest.word h.1 hends
  rwa [wordToken, h.2] at hscans

theorem Scans.keyword (k : Keyword) {rest : List Char} {ts : List Token}
    (hends : EndsWord rest) (hrest : Scans rest ts) :
    Scans (k.text.toList ++ rest) (.keyword k :: ts) := by
  have hword : isWord k.text = true := by cases k <;> decide
  have htoken : wordToken k.text = .keyword k := by cases k <;> rfl
  have hscans := hrest.word hword hends
  rwa [htoken] at hscans

/-! ## Numbers -/

theorem startsWord_of_endsWord {rest : List Char} (h : EndsWord rest) :
    startsWord rest = false := by
  cases rest with
  | nil => rfl
  | cons c rest =>
    cases hc : isWordStart c with
    | false => exact hc
    | true => simpa [isWordChar_of_start hc] using h c rfl

theorem isWordChar_of_isDigit {c : Char} (h : c.isDigit = true) : isWordChar c = true := by
  simp [isWordChar, Char.isAlphanum, h]

theorem numberChars_numeral {cs rest : List Char} (h : Number.Numeral cs) (hends : EndsWord rest)
    (hpoint : rest.head? ≠ some '.') : numberChars (cs ++ rest) = cs := by
  have hdigit : ∀ c, rest.head? = some c → c.isDigit = false := by
    intro c hc
    cases hd : c.isDigit with
    | false => rfl
    | true => simpa [isWordChar_of_isDigit hd] using hends c hc
  cases h with
  | whole hne hds =>
    obtain ⟨htake, hdrop⟩ := Number.takeWhile_digits hds rest hdigit
    unfold numberChars
    rw [htake, hdrop]
    dsimp only
    split
    · exact absurd rfl hpoint
    · rfl
  | @point ds ps hne hds hne' hps =>
    obtain ⟨htake, hdrop⟩ := Number.takeWhile_digits hds ('.' :: ps ++ rest) (by simp)
    obtain ⟨htake', _⟩ := Number.takeWhile_digits hps rest hdigit
    unfold numberChars
    rw [List.append_assoc, htake, hdrop]
    simp [htake', hne']

theorem isWordStart_of_isDigit {c : Char} (h : c.isDigit = true) : isWordStart c = false := by
  simp only [Char.isDigit, Bool.and_eq_true, decide_eq_true_eq] at h
  have hle : c.val.toNat ≤ 57 := UInt32.le_iff_toNat_le.mp h.2
  cases hstart : isWordStart c with
  | false => rfl
  | true =>
    change (decide (c.val ≥ 65 ∧ c.val ≤ 90) || (decide (c.val ≥ 97) && decide (c.val ≤ 122)) ||
      c == '_') = true at hstart
    simp only [Bool.or_eq_true, Bool.and_eq_true, decide_eq_true_eq, beq_iff_eq] at hstart
    rcases hstart with (⟨hge, _⟩ | ⟨hge, _⟩) | rfl
    · have hge' : 65 ≤ c.val.toNat := UInt32.le_iff_toNat_le.mp hge
      omega
    · have hge' : 97 ≤ c.val.toNat := UInt32.le_iff_toNat_le.mp hge
      omega
    · exact absurd hle (by decide)

theorem Scans.number {cs : List Char} (h : Number.Numeral cs) {n : Float}
    (hn : Number.read? (String.ofList cs) = some n) {rest : List Char} {ts : List Token}
    (hends : EndsWord rest) (hpoint : rest.head? ≠ some '.') (hrest : Scans rest ts) :
    Scans (cs ++ rest) (.number n :: ts) := by
  have hchars := numberChars_numeral h hends hpoint
  obtain ⟨c, cs, rfl, hc⟩ := h.start
  have hgap := not_gap_of_wordChar (isWordChar_of_isDigit hc)
  have hword := isWordStart_of_isDigit hc
  have hlexeme : lexeme? (c :: cs ++ rest) = some (.token (.number n), c :: cs) := by
    simp only [List.cons_append] at hchars
    simp only [lexeme?, List.cons_append, hgap, hword, hc, hchars, hn, if_true, Bool.false_eq_true,
      if_false, Option.map_some]
  exact .token (by simp) hlexeme (fun _ => startsWord_of_endsWord hends) hrest

/-! ## Strings -/

section Escapes

variable {c : Char} (hquote : c ≠ '"') (hbackslash : c ≠ '\\') (cs : List Char)

include hquote hbackslash in
theorem stringInside?_plain : stringInside? (c :: cs) = (stringInside? cs).map (c :: ·) := by
  rw [stringInside?]
  · exact fun h => hquote h
  · exact fun h => absurd h hbackslash
  · exact fun _ _ h => absurd h hbackslash

include hbackslash in
theorem unescape?_plain : unescape? (c :: cs) = (unescape? cs).map (c :: ·) := by
  rw [unescape?]
  · exact fun h => absurd h hbackslash
  · exact fun _ _ h => absurd h hbackslash

end Escapes

theorem unescape?_escaped {c d : Char} (h : escaped? c = some d) (cs : List Char) :
    unescape? ('\\' :: c :: cs) = (unescape? cs).map (d :: ·) := by
  cases hcs : unescape? cs <;> simp [unescape?, h, hcs]

theorem stringInside?_literalChar (c : Char) (cs : List Char) :
    stringInside? (Snapshot.literalChar c ++ cs) =
      (stringInside? cs).map (Snapshot.literalChar c ++ ·) := by
  unfold Snapshot.literalChar
  split
  · rfl
  · rfl
  · rfl
  · rfl
  · rfl
  · rename_i hquote hbackslash _ _ _
    exact stringInside?_plain hquote hbackslash cs

theorem unescape?_literalChar (c : Char) (cs : List Char) :
    unescape? (Snapshot.literalChar c ++ cs) = (unescape? cs).map (c :: ·) := by
  unfold Snapshot.literalChar
  split
  · exact unescape?_escaped rfl cs
  · exact unescape?_escaped rfl cs
  · exact unescape?_escaped rfl cs
  · exact unescape?_escaped rfl cs
  · exact unescape?_escaped rfl cs
  · rename_i hquote hbackslash _ _ _
    exact unescape?_plain hbackslash cs

theorem stringInside?_literal (cs rest : List Char) :
    stringInside? (cs.flatMap Snapshot.literalChar ++ '"' :: rest) =
      some (cs.flatMap Snapshot.literalChar) := by
  induction cs with
  | nil => rfl
  | cons c cs ih => rw [List.flatMap_cons, List.append_assoc, stringInside?_literalChar, ih]; rfl

theorem unescape?_literal (cs : List Char) :
    unescape? (cs.flatMap Snapshot.literalChar) = some cs := by
  induction cs with
  | nil => rfl
  | cons c cs ih => rw [List.flatMap_cons, unescape?_literalChar, ih]; rfl

theorem Scans.string (s : String) {rest : List Char} {ts : List Token} (hrest : Scans rest ts) :
    Scans ((Snapshot.literal s).toList ++ rest) (.string s :: ts) := by
  have hlexeme : lexeme? ((Snapshot.literal s).toList ++ rest) =
      some (.token (.string s), (Snapshot.literal s).toList) := by
    have hinside := stringInside?_literal s.toList rest
    simp only [Snapshot.literal, String.toList_ofList, List.cons_append, List.append_assoc,
      List.nil_append] at hinside ⊢
    simp [lexeme?, isGapChar, isWordStart, hinside, stringToken?, unescape?_literal]
  exact .token (by simp [Snapshot.literal]) hlexeme (by simp [Token.isNumber]) hrest

/-! ## Marks -/

/-- Whether a longer lexeme can start with the mark. -/
def Mark.grows : Mark → Bool
  | .minus | .less | .greater | .assign | .slash => true
  | _ => false

/-- No character comes next that makes a mark longer or starts a comment with it. -/
def EndsMark (rest : List Char) : Prop := ∀ c ∈ ['=', '>', '/', '*'], rest.head? ≠ some c

theorem lexeme?_mark (m : Mark) {rest : List Char} (h : m.grows = true → EndsMark rest) :
    lexeme? (m.text.toList ++ rest) = some (.token (.mark m), m.text.toList) := by
  cases hm : m.grows with
  | false =>
    cases m with
    | minus | less | greater | assign | slash => cases hm
    | _ => rfl
  | true =>
    have hends := h hm
    cases rest with
    | nil =>
      cases m with
      | minus | less | greater | assign | slash => rfl
      | _ => cases hm
    | cons c rest =>
      simp only [EndsMark, List.head?_cons, ne_eq, Option.some.injEq, List.mem_cons,
        List.not_mem_nil, or_false, forall_eq_or_imp, forall_eq] at hends
      obtain ⟨heq, hgt, hslash, hstar⟩ := hends
      cases m with
      | minus | less | greater | assign | slash =>
        simp [lexeme?, Mark.text, isGapChar, isWordStart, commentChars?, mark?, heq, hgt, hslash,
          hstar]
      | _ => cases hm

theorem Scans.mark (m : Mark) {rest : List Char} {ts : List Token}
    (hends : m.grows = true → EndsMark rest) (hrest : Scans rest ts) :
    Scans (m.text.toList ++ rest) (.mark m :: ts) := by
  have hne : m.text.toList ≠ [] := by cases m <;> exact List.cons_ne_nil _ _
  exact .token hne (lexeme?_mark m hends) (by simp [Token.isNumber]) hrest

theorem Scans.plainMark (m : Mark) (hm : m.grows = false) {rest : List Char} {ts : List Token}
    (hrest : Scans rest ts) : Scans (m.text.toList ++ rest) (.mark m :: ts) :=
  hrest.mark m (by simp [hm])

/-! ## Delimiters -/

/-- What comes next, if anything, ends every lexeme before it. -/
def Delimited (rest : List Char) : Prop :=
  ∀ c, rest.head? = some c → c ∈ [' ', '\n', ',', ')', ']']

theorem Delimited.nil : Delimited [] := by
  intro c hc
  cases hc

theorem Delimited.cons {c : Char} (hc : c ∈ [' ', '\n', ',', ')', ']']) (rest : List Char) :
    Delimited (c :: rest) := by
  rintro d ⟨⟩
  exact hc

theorem Delimited.endsWord {rest : List Char} (h : Delimited rest) : EndsWord rest := by
  have hall : ∀ c ∈ [' ', '\n', ',', ')', ']'], isWordChar c = false := by
    simp [isWordChar]
  exact fun c hc => hall c (h c hc)

theorem Delimited.noPoint {rest : List Char} (h : Delimited rest) : rest.head? ≠ some '.' := by
  intro hc
  exact absurd (h _ hc) (by decide)

end EntityScript.Source
