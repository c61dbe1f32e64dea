import EntityScript.Proofs.Source.Lexemes
import Mathlib.Data.List.TakeWhile

/-! # The longest match

The scanner decides by the first characters of a text what to take. No two classes of lexemes
start alike, but for keywords and names and for the slash, which is a mark and starts comments
(`start_eq`); so what the scanner takes is longest among all lexemes. `taken_of_lexeme?` says
that it takes the lexeme that is to be taken and reads it as it is to be read, `Taken.lexeme?`
the converse, and `lexeme?_eq_none` that it takes none only where no lexeme starts or the lexeme
is a string with an unknown escape. -/

namespace EntityScript.Source

/-! ## First characters -/

/-- What lexemes a character can start. -/
inductive Start where
  | blank
  | letter
  | digit
  | quote
  | other
  deriving DecidableEq

/-- The classes are looked at in this order, but no character is in two of them. -/
def Start.of (c : Char) : Start :=
  if isGapChar c then .blank
  else if isWordStart c then .letter
  else if c.isDigit then .digit
  else if c = '"' then .quote
  else .other

/-- How the lexemes of a rule start. -/
def Rule.start : Rule → Start
  | keyword _ | word => .letter
  | number => .digit
  | string => .quote
  | blanks => .blank
  | mark _ | lineComment | hashComment | blockComment => .other

theorem mem_word_of_keyword (k : Keyword) : k.text.toList ∈ Rule.word.language := by
  have hword : isWord k.text = true := by cases k <;> decide
  exact mem_word.mpr (chars_of_isWord hword)

theorem head_of_mem {r : Rule} {w : List Char} (h : w ∈ r.language) :
    ∃ c rest, w = c :: rest ∧ Start.of c = r.start := by
  have hletter : ∀ v, v ∈ Rule.word.language → ∃ c rest, v = c :: rest ∧ Start.of c = .letter := by
    intro v hv
    obtain ⟨c, cs, rfl, hc, _⟩ := mem_word.mp hv
    exact ⟨c, cs, rfl, by simp [Start.of, hc, not_gap_of_wordChar (isWordChar_of_start hc)]⟩
  cases r with
  | keyword k =>
    rw [mem_keyword.mp h]
    exact hletter _ (mem_word_of_keyword k)
  | mark m =>
    rw [mem_mark.mp h]
    cases m <;> exact ⟨_, _, rfl, rfl⟩
  | number =>
    obtain ⟨c, rest, rfl, hc⟩ := (mem_number.mp h).start
    refine ⟨c, rest, rfl, ?_⟩
    simp [Start.of, Rule.start, hc, isWordStart_of_isDigit hc,
      not_gap_of_wordChar (isWordChar_of_isDigit hc)]
  | string =>
    obtain ⟨inside, _, rfl⟩ := mem_string.mp h
    exact ⟨_, _, rfl, rfl⟩
  | word => exact hletter w h
  | blanks =>
    obtain ⟨hne, hall⟩ := mem_blanks.mp h
    obtain ⟨c, cs, rfl⟩ := List.exists_cons_of_ne_nil hne
    exact ⟨c, cs, rfl, by simp [Start.of, Rule.start, hall c List.mem_cons_self]⟩
  | lineComment =>
    obtain ⟨cs, _, rfl⟩ := mem_lineComment.mp h
    exact ⟨_, _, rfl, rfl⟩
  | hashComment =>
    obtain ⟨cs, _, rfl⟩ := mem_hashComment.mp h
    exact ⟨_, _, rfl, rfl⟩
  | blockComment =>
    obtain ⟨inner, _, rfl⟩ := mem_blockComment.mp h
    exact ⟨_, _, rfl, rfl⟩

/-- A lexeme at the start of a text starts as the text does. -/
theorem start_eq {r : Rule} {c : Char} {w cs : List Char} (h : w ∈ r.language)
    (hpre : w <+: c :: cs) : r.start = Start.of c := by
  obtain ⟨d, rest, rfl, hd⟩ := head_of_mem h
  obtain ⟨rfl, _⟩ := List.cons_prefix_cons.mp hpre
  exact hd.symm

/-! ## Numbers -/

theorem takeWhile_prefix_numberChars (cs : List Char) :
    cs.takeWhile Char.isDigit <+: numberChars cs := by
  unfold numberChars
  dsimp only
  split
  · split
    · exact List.prefix_rfl
    · exact List.prefix_append _ _
  · exact List.prefix_rfl

theorem numberChars_starts (cs : List Char) : numberChars cs <+: cs := by
  have hsplit := List.takeWhile_append_dropWhile (p := Char.isDigit) (l := cs)
  unfold numberChars
  dsimp only
  split
  · rename_i rest hdrop
    split
    · exact List.takeWhile_prefix _
    · have hplaces : cs.takeWhile Char.isDigit ++ '.' :: rest.takeWhile Char.isDigit <+:
          cs.takeWhile Char.isDigit ++ '.' :: rest := by
        rw [List.prefix_append_right_inj, List.cons_prefix_cons]
        exact ⟨rfl, List.takeWhile_prefix _⟩
      rwa [← hdrop, hsplit] at hplaces
  · exact List.takeWhile_prefix _

theorem numeral_numberChars {c : Char} (hc : c.isDigit = true) (cs : List Char) :
    Number.Numeral (numberChars (c :: cs)) := by
  have hne : (c :: cs).takeWhile Char.isDigit ≠ [] := by simp [hc]
  have hdigits : ∀ d ∈ (c :: cs).takeWhile Char.isDigit, d.isDigit = true :=
    fun d hd => List.mem_takeWhile_imp hd
  unfold numberChars
  dsimp only
  split
  · rename_i rest hdrop
    by_cases hplaces : (rest.takeWhile Char.isDigit).isEmpty = true
    · rw [if_pos hplaces]
      exact .whole hne hdigits
    · rw [if_neg hplaces]
      exact .point hne hdigits (by simpa using hplaces) fun d hd => List.mem_takeWhile_imp hd
  · exact .whole hne hdigits

theorem length_le_numberChars {w cs : List Char} (hw : Number.Numeral w) (hpre : w <+: cs) :
    w.length ≤ (numberChars cs).length := by
  cases hw with
  | whole hne hds =>
    exact (length_le_takeWhile hds hpre).trans (takeWhile_prefix_numberChars cs).length_le
  | @point ds ps hne hds hne' hps =>
    obtain ⟨rest, rfl⟩ := hpre
    obtain ⟨htake, hdrop⟩ := Number.takeWhile_digits hds ('.' :: ps ++ rest) (by simp)
    have hplaces : ps.length ≤ ((ps ++ rest).takeWhile Char.isDigit).length :=
      length_le_takeWhile hps (List.prefix_append _ _)
    have hfull : (ps ++ rest).takeWhile Char.isDigit ≠ [] := by
      intro hnil
      rw [hnil] at hplaces
      exact hne' (List.length_eq_zero_iff.mp (Nat.le_zero.mp hplaces))
    unfold numberChars
    rw [List.append_assoc, htake, hdrop]
    simp only [List.cons_append, List.isEmpty_iff, hfull, if_false, List.length_append,
      List.length_cons]
    omega

/-! ## Marks -/

theorem mark?_sound {cs w : List Char} {m : Mark} (h : mark? cs = some (m, w)) :
    w = m.text.toList ∧ w <+: cs := by
  unfold mark? at h
  split at h <;> cases h <;> exact ⟨rfl, _, rfl⟩

theorem mark?_text (m : Mark) : mark? m.text.toList = some (m, m.text.toList) := by
  cases m <;> rfl

theorem text_injective {m m' : Mark} (h : m.text.toList = m'.text.toList) : m = m' := by
  have hmark := mark?_text m
  rw [h, mark?_text m'] at hmark
  cases hmark
  rfl

theorem mark?_longest {cs : List Char} {m : Mark} (h : m.text.toList <+: cs) :
    ∃ m' w, mark? cs = some (m', w) ∧ m.text.toList.length ≤ w.length := by
  have hone : ∀ c ∈ ['-', '<', '>', '='], ∀ rest, ∃ m' w, mark? (c :: rest) = some (m', w) ∧
      1 ≤ w.length := by
    intro c hc rest
    unfold mark?
    split
    case h_23 =>
      -- here no mark fits, but `c` is one
      simp only [List.mem_cons, List.not_mem_nil, or_false] at hc
      rcases hc with rfl | rfl | rfl | rfl
      · exact absurd rfl (‹∀ tail, '-' :: rest = '-' :: tail → False› rest)
      · exact absurd rfl (‹∀ tail, '<' :: rest = '<' :: tail → False› rest)
      · exact absurd rfl (‹∀ tail, '>' :: rest = '>' :: tail → False› rest)
      · exact absurd rfl (‹∀ tail, '=' :: rest = '=' :: tail → False› rest)
    all_goals exact ⟨_, _, rfl, by decide⟩
  obtain ⟨rest, rfl⟩ := h
  cases m with
  | minus | less | greater | assign => exact hone _ (by decide) rest
  | _ => exact ⟨_, _, rfl, Nat.le_refl _⟩

/-! ## Comments -/

section Comments

variable {cs w : List Char}

theorem commentChars?_sound (h : commentChars? cs = some w) :
    w <+: cs ∧ ∃ r ∈ [Rule.lineComment, .hashComment, .blockComment], w ∈ r.language := by
  unfold commentChars? at h
  split at h
  · rename_i rest
    cases h
    refine ⟨by simpa using List.takeWhile_prefix _, .lineComment, by simp, mem_lineComment.mpr ?_⟩
    exact ⟨_, fun c hc => List.mem_takeWhile_imp (p := (· != '\n')) hc, rfl⟩
  · rename_i rest
    cases h
    refine ⟨by simpa using List.takeWhile_prefix _, .hashComment, by simp, mem_hashComment.mpr ?_⟩
    exact ⟨_, fun c hc => List.mem_takeWhile_imp (p := (· != '\n')) hc, rfl⟩
  · rename_i rest
    obtain ⟨inner, hinner, rfl⟩ := Option.map_eq_some_iff.mp h
    obtain ⟨hmem, hpre⟩ := mem_of_blockRest? hinner
    exact ⟨by simpa using hpre, .blockComment, by simp, mem_blockComment.mpr ⟨inner, hmem, rfl⟩⟩
  · cases h

theorem commentChars?_longest {r : Rule}
    (hr : r ∈ [Rule.lineComment, .hashComment, .blockComment]) (hpre : w <+: cs)
    (hw : w ∈ r.language) : ∃ w', commentChars? cs = some w' ∧ w.length ≤ w'.length := by
  obtain ⟨rest, rfl⟩ := hpre
  simp only [List.mem_cons, List.not_mem_nil, or_false] at hr
  rcases hr with rfl | rfl | rfl
  · obtain ⟨v, hv, rfl⟩ := mem_lineComment.mp hw
    exact ⟨_, rfl, by simpa using length_le_takeWhile hv (List.prefix_append v rest)⟩
  · obtain ⟨v, hv, rfl⟩ := mem_hashComment.mp hw
    exact ⟨_, rfl, by simpa using length_le_takeWhile hv (List.prefix_append v rest)⟩
  · obtain ⟨inner, hinner, rfl⟩ := mem_blockComment.mp hw
    refine ⟨'/' :: '*' :: inner, ?_, Nat.le_refl _⟩
    simp [commentChars?, blockRest?_of_mem hinner]

/-- No mark goes as far as a comment. -/
theorem mark_lt_comment (h : commentChars? cs = some w) {m : Mark} (hm : m.text.toList <+: cs) :
    m.text.toList.length < w.length := by
  have hslash : ∀ rest, m.text.toList <+: '/' :: rest → m.text.toList.length = 1 := by
    intro rest hpre
    cases m with
    | slash => rfl
    | _ => exact absurd (List.cons_prefix_cons.mp hpre).1 (by decide)
  have hhash : ∀ rest, ¬ m.text.toList <+: '#' :: rest := by
    intro rest hpre
    cases m <;> exact absurd (List.cons_prefix_cons.mp hpre).1 (by decide)
  unfold commentChars? at h
  split at h
  · cases h
    simp [hslash _ hm]
  · exact absurd hm (hhash _)
  · obtain ⟨inner, _, rfl⟩ := Option.map_eq_some_iff.mp h
    simp [hslash _ hm]
  · cases h

/-- The kind of a comment, told by its first characters. -/
def commentRule? : List Char → Option Rule
  | '/' :: '/' :: _ => some .lineComment
  | '/' :: '*' :: _ => some .blockComment
  | '#' :: _ => some .hashComment
  | _ => none

theorem commentRule?_of_mem {r : Rule} (hr : r ∈ [Rule.lineComment, .hashComment, .blockComment])
    (hw : w ∈ r.language) : commentRule? w = some r := by
  simp only [List.mem_cons, List.not_mem_nil, or_false] at hr
  rcases hr with rfl | rfl | rfl
  · obtain ⟨v, _, rfl⟩ := mem_lineComment.mp hw
    rfl
  · obtain ⟨v, _, rfl⟩ := mem_hashComment.mp hw
    rfl
  · obtain ⟨inner, _, rfl⟩ := mem_blockComment.mp hw
    rfl

end Comments

/-! ## What is taken -/

section Taken

variable {c : Char} {cs w : List Char}

/-- Where all lexemes are of one rule, the longest of it is taken. -/
theorem Taken.of_only {r : Rule} (honly : ∀ r' : Rule, r'.start = r.start → r' = r)
    (hpre : w <+: cs) (hw : w ∈ r.language)
    (hlongest : ∀ x, x <+: cs → x ∈ r.language → x.length ≤ w.length) : Taken r w cs := by
  obtain ⟨c, v, rfl, hc⟩ := head_of_mem hw
  obtain ⟨rest, rfl⟩ := hpre
  refine ⟨List.prefix_append _ _, hw, ?_, ?_⟩
  · intro r' x hx hmem
    cases honly r' ((start_eq hmem hx).trans hc)
    exact hlongest x hx hmem
  · intro r' hmem
    exact .inl (honly r' ((start_eq hmem List.prefix_rfl).trans hc))

theorem taken_blanks (hc : isGapChar c = true) :
    Taken .blanks ((c :: cs).takeWhile isGapChar) (c :: cs) := by
  refine .of_only ?_ (List.takeWhile_prefix _) ?_ ?_
  · intro r hr
    cases r with
    | blanks => rfl
    | _ => cases hr
  · exact mem_blanks.mpr ⟨by simp [hc], fun d hd => List.mem_takeWhile_imp hd⟩
  · intro x hx hmem
    exact length_le_takeWhile (mem_blanks.mp hmem).2 hx

theorem taken_number (hc : c.isDigit = true) :
    Taken .number (numberChars (c :: cs)) (c :: cs) := by
  refine .of_only ?_ (numberChars_starts _) ?_ ?_
  · intro r hr
    cases r with
    | number => rfl
    | _ => cases hr
  · exact mem_number.mpr (numeral_numberChars hc cs)
  · intro x hx hmem
    exact length_le_numberChars (mem_number.mp hmem) hx

/-- A text starts with at most one string. -/
theorem stringInside?_of_starts {inside : List Char} (hinside : inside ∈ Rule.inside)
    (hpre : '"' :: inside ++ ['"'] <+: '"' :: cs) : stringInside? cs = some inside := by
  obtain ⟨rest, hrest⟩ := hpre
  have hcs : cs = inside ++ '"' :: rest := by simpa using hrest.symm
  rw [hcs]
  exact stringInside?_of_mem hinside rest

theorem taken_string (h : stringInside? cs = some w) :
    Taken .string ('"' :: w ++ ['"']) ('"' :: cs) := by
  obtain ⟨hmem, hpre⟩ := mem_of_stringInside? h
  refine .of_only ?_ (by simpa using hpre) (mem_string.mpr ⟨w, hmem, rfl⟩) ?_
  · intro r hr
    cases r with
    | string => rfl
    | _ => cases hr
  · intro x hx hx'
    obtain ⟨v, hv, rfl⟩ := mem_string.mp hx'
    rw [stringInside?_of_starts hv hx] at h
    cases h
    exact Nat.le_refl _

theorem no_string (h : stringInside? cs = none) (r : Rule) (x : List Char)
    (hx : x <+: '"' :: cs) : x ∉ r.language := by
  intro hmem
  have hr : r.start = .quote := start_eq hmem hx
  cases r with
  | string =>
    obtain ⟨v, hv, rfl⟩ := mem_string.mp hmem
    rw [stringInside?_of_starts hv hx] at h
    cases h
  | _ => cases hr

/-- The rule of a word. -/
def wordRule (w : List Char) : Rule :=
  match Keyword.ofWord? (String.ofList w) with
  | some k => .keyword k
  | none => .word

theorem wordRule_keyword (k : Keyword) : wordRule k.text.toList = .keyword k := by
  cases k <;> rfl

theorem mem_wordRule (hw : w ∈ Rule.word.language) : w ∈ (wordRule w).language := by
  unfold wordRule
  split
  · rename_i k hk
    have htext : (k.text == String.ofList w) = true :=
      List.find?_some (p := fun k : Keyword => k.text == String.ofList w) hk
    rw [mem_keyword, eq_of_beq htext, String.toList_ofList]
  · exact hw

theorem taken_word (hc : isWordStart c = true) :
    Taken (wordRule ((c :: cs).takeWhile isWordChar)) ((c :: cs).takeWhile isWordChar)
      (c :: cs) := by
  have hchar := isWordChar_of_start hc
  have hstart : Start.of c = .letter := by simp [Start.of, hc, not_gap_of_wordChar hchar]
  have hword : (c :: cs).takeWhile isWordChar ∈ Rule.word.language := by
    rw [List.takeWhile_cons_of_pos hchar]
    exact mem_word.mpr ⟨c, _, rfl, hc, fun d hd => List.mem_takeWhile_imp hd⟩
  refine ⟨List.takeWhile_prefix _, mem_wordRule hword, ?_, ?_⟩
  · intro r x hx hmem
    have hx' : x ∈ Rule.word.language := by
      have hr := (start_eq hmem hx).trans hstart
      cases r with
      | keyword k =>
        rw [mem_keyword.mp hmem]
        exact mem_word_of_keyword k
      | word => exact hmem
      | _ => cases hr
    obtain ⟨d, ds, rfl, hd, hds⟩ := mem_word.mp hx'
    exact length_le_takeWhile (List.forall_mem_cons.mpr ⟨isWordChar_of_start hd, hds⟩) hx
  · intro r hmem
    have hr := (start_eq hmem (List.takeWhile_prefix _)).trans hstart
    cases r with
    | keyword k =>
      rw [mem_keyword.mp hmem, wordRule_keyword]
      exact .inl rfl
    | word =>
      unfold wordRule
      split
      · rename_i k _
        exact .inr ⟨rfl, k, rfl⟩
      · exact .inl rfl
    | _ => cases hr

/-- A rule that does not start in a way of its own is for a mark or a comment. -/
theorem mark_or_comment {r : Rule} (h : r.start = .other) :
    (∃ m, r = .mark m) ∨ r ∈ [Rule.lineComment, .hashComment, .blockComment] := by
  cases r with
  | mark m => exact .inl ⟨m, rfl⟩
  | lineComment | hashComment | blockComment => exact .inr (by simp)
  | _ => cases h

theorem taken_comment (h : commentChars? (c :: cs) = some w) :
    ∃ r ∈ [Rule.lineComment, .hashComment, .blockComment], Taken r w (c :: cs) := by
  obtain ⟨hpre, r, hr, hw⟩ := commentChars?_sound h
  have hstart : Start.of c = .other := by
    rw [← start_eq hw hpre]
    simp only [List.mem_cons, List.not_mem_nil, or_false] at hr
    rcases hr with rfl | rfl | rfl <;> rfl
  refine ⟨r, hr, hpre, hw, ?_, ?_⟩
  · intro r' x hx hmem
    rcases mark_or_comment ((start_eq hmem hx).trans hstart) with ⟨m, rfl⟩ | hr'
    · rw [mem_mark.mp hmem] at hx ⊢
      exact (mark_lt_comment h hx).le
    · obtain ⟨w', hw', hle⟩ := commentChars?_longest hr' hx hmem
      rw [h] at hw'
      cases hw'
      exact hle
  · intro r' hmem
    rcases mark_or_comment ((start_eq hmem hpre).trans hstart) with ⟨m, rfl⟩ | hr'
    · have hlt := mark_lt_comment h (m := m) (mem_mark.mp hmem ▸ hpre)
      rw [← mem_mark.mp hmem] at hlt
      exact absurd hlt (Nat.lt_irrefl _)
    · have hrule := commentRule?_of_mem hr' hmem
      rw [commentRule?_of_mem hr hw] at hrule
      exact .inl (Option.some.inj hrule).symm

section Marks

variable (hstart : Start.of c = .other) (hcomment : commentChars? (c :: cs) = none)

include hstart hcomment

/-- Where no comment starts, all lexemes are marks. -/
theorem mark_of_no_comment {r : Rule} (hpre : w <+: c :: cs) (hw : w ∈ r.language) :
    ∃ m, r = .mark m := by
  rcases mark_or_comment ((start_eq hw hpre).trans hstart) with hm | hr
  · exact hm
  · obtain ⟨w', hw', _⟩ := commentChars?_longest hr hpre hw
    rw [hcomment] at hw'
    cases hw'

theorem taken_mark {m : Mark} (h : mark? (c :: cs) = some (m, w)) :
    Taken (.mark m) w (c :: cs) := by
  obtain ⟨htext, hpre⟩ := mark?_sound h
  refine ⟨hpre, mem_mark.mpr htext, ?_, ?_⟩
  · intro r x hx hmem
    obtain ⟨m', rfl⟩ := mark_of_no_comment hstart hcomment hx hmem
    rw [mem_mark.mp hmem] at hx ⊢
    obtain ⟨m₂, w₂, hlongest, hle⟩ := mark?_longest hx
    rw [h] at hlongest
    cases hlongest
    exact hle
  · intro r hmem
    obtain ⟨m', rfl⟩ := mark_of_no_comment hstart hcomment hpre hmem
    rw [text_injective ((mem_mark.mp hmem).symm.trans htext)]
    exact .inl rfl

theorem no_mark (h : mark? (c :: cs) = none) (r : Rule) (x : List Char) (hx : x <+: c :: cs) :
    x ∉ r.language := by
  intro hmem
  obtain ⟨m, rfl⟩ := mark_of_no_comment hstart hcomment hx hmem
  rw [mem_mark.mp hmem] at hx
  obtain ⟨m', w', hmark, _⟩ := mark?_longest hx
  rw [h] at hmark
  cases hmark

end Marks

end Taken

/-! ## How lexemes are read -/

theorem escaped?_eq_some_iff {c d : Char} : escaped? c = some d ↔ (c, d) ∈ escapes := by
  unfold escaped? escapes
  split <;> simp_all [eq_comm]

theorem unescape?_of_decodes {cs ds : List Char} (h : Decodes cs ds) (rest : List Char) :
    unescape? (cs ++ rest) = (unescape? rest).map (ds ++ ·) := by
  induction h with
  | nil => simp
  | plain hc _ ih => simp [unescape?_plain hc, ih, Function.comp_def]
  | escape hd _ ih => simp [unescape?_escaped (escaped?_eq_some_iff.mpr hd), ih, Function.comp_def]

theorem decodes_of_unescape? {cs ds : List Char} (h : unescape? cs = some ds) :
    Decodes cs ds := by
  fun_induction unescape? cs generalizing ds with
  | case1 =>
    cases h
    exact .nil
  | case2 => cases h
  | case3 c cs ih =>
    simp only [Option.bind_eq_bind, Option.bind_eq_some_iff, Option.some.injEq] at h
    obtain ⟨d, hd, rest, hrest, rfl⟩ := h
    exact .escape (escaped?_eq_some_iff.mp hd) (ih hrest)
  | case4 c cs hend hslash ih =>
    obtain ⟨rest, hrest, rfl⟩ := Option.map_eq_some_iff.mp h
    have hplain : c ≠ '\\' := by
      rintro rfl
      cases cs with
      | nil => exact hend rfl rfl
      | cons d cs => exact hslash d cs rfl rfl
    exact .plain hplain (ih hrest)

theorem UnknownEscape.unescape? {cs : List Char} (h : UnknownEscape cs) :
    unescape? cs = none := by
  obtain ⟨before, ds, c, after, rfl, hbefore, hc⟩ := h
  have hescaped : escaped? c = none := by
    rw [Option.eq_none_iff_forall_ne_some]
    intro d hd
    exact hc d (escaped?_eq_some_iff.mp hd)
  rw [unescape?_of_decodes hbefore]
  simp [Source.unescape?, hescaped]

/-- The inside of a string that cannot be read has an unknown escape. -/
theorem unknownEscape_of_mem {cs : List Char} (hcs : cs ∈ Rule.inside)
    (h : unescape? cs = none) : UnknownEscape cs := by
  obtain ⟨units, rfl, hunits⟩ := mem_inside.mp hcs
  clear hcs
  induction units with
  | nil => cases h
  | cons u units ih =>
    rw [List.forall_mem_cons] at hunits
    rw [List.flatten_cons] at h ⊢
    rcases hunits.1 with ⟨c, rfl, _, hslash⟩ | ⟨c, rfl, _⟩
    · rw [List.singleton_append, unescape?_plain hslash, Option.map_eq_none_iff] at h
      obtain ⟨before, ds, d, after, heq, hbefore, hd⟩ := ih hunits.2 h
      exact ⟨c :: before, c :: ds, d, after, by simp [heq], .plain hslash hbefore, hd⟩
    · cases hescaped : escaped? c with
      | none =>
        refine ⟨[], [], c, units.flatten, rfl, .nil, ?_⟩
        intro d hd
        rw [escaped?_eq_some_iff.mpr hd] at hescaped
        cases hescaped
      | some e =>
        rw [List.cons_append, List.singleton_append, unescape?_escaped hescaped,
          Option.map_eq_none_iff] at h
        obtain ⟨before, ds, d, after, heq, hbefore, hd⟩ := ih hunits.2 h
        exact ⟨'\\' :: c :: before, e :: ds, d, after, by simp [heq],
          .escape (escaped?_eq_some_iff.mp hescaped) hbefore, hd⟩

theorem numeral_read? {w : List Char} (h : Number.Numeral w) :
    ∃ n, Number.read? (String.ofList w) = some n := by
  rw [Number.read?_numeral h]
  cases h with
  | whole hne hds => exact ⟨_, by rw [Number.readDecimal?_whole hne hds]; rfl⟩
  | point hne hds _ hps => exact ⟨_, by rw [Number.readDecimal?_point hne hds hps]; rfl⟩

theorem unescape?_of_reads {inside : List Char} {l : Lexeme}
    (h : Rule.string.Reads ('"' :: inside ++ ['"']) l) :
    ∃ ds, unescape? inside = some ds ∧ l = .token (.string (String.ofList ds)) := by
  generalize htext : '"' :: inside ++ ['"'] = w at h
  cases h with
  | @string inside' ds hds =>
    have hinside : inside = inside' := by simpa using htext
    refine ⟨ds, ?_, rfl⟩
    simpa [hinside, unescape?] using unescape?_of_decodes hds []
  | gap _ hgap => cases hgap

/-- A lexeme is read in one way. -/
theorem Rule.Reads.unique {r : Rule} {w : List Char} {l l' : Lexeme} (h : r.Reads w l)
    (h' : r.Reads w l') : l = l' := by
  cases h with
  | keyword | mark | word =>
    cases h' with
    | gap _ hgap => cases hgap
    | _ => rfl
  | number hn =>
    cases h' with
    | number hn' =>
      rw [hn] at hn'
      cases hn'
      rfl
    | gap _ hgap => cases hgap
  | string hds =>
    obtain ⟨ds, hread, hl⟩ := unescape?_of_reads (.string hds)
    obtain ⟨ds', hread', rfl⟩ := unescape?_of_reads h'
    rw [hread] at hread'
    cases hread'
    exact hl
  | gap _ hgap =>
    cases h' with
    | gap => rfl
    | _ => cases hgap

/-! ## The scanner takes what is to be taken -/

theorem reads_wordRule (w : List Char) :
    (wordRule w).Reads w (.token (wordToken (String.ofList w))) := by
  unfold wordRule wordToken
  cases Keyword.ofWord? (String.ofList w) with
  | some k => exact .keyword k w
  | none => exact .word w

/-- The scanner decides by the first character. -/
theorem lexeme?_cons (c : Char) (cs : List Char) : lexeme? (c :: cs) =
    match Start.of c with
    | .blank => some (.gap, (c :: cs).takeWhile isGapChar)
    | .letter =>
      some (.token (wordToken (String.ofList ((c :: cs).takeWhile isWordChar))),
        (c :: cs).takeWhile isWordChar)
    | .digit =>
      (Number.read? (String.ofList (numberChars (c :: cs)))).map fun n =>
        (.token (.number n), numberChars (c :: cs))
    | .quote =>
      (stringInside? cs).bind fun inside =>
        (stringToken? inside).bind fun t => some (.token t, '"' :: inside ++ ['"'])
    | .other =>
      match commentChars? (c :: cs) with
      | some comment => some (.gap, comment)
      | none => (mark? (c :: cs)).map fun (m, taken) => (.token (.mark m), taken) := by
  unfold lexeme? Start.of
  dsimp only
  split_ifs <;> rfl

theorem start_spec (c : Char) :
    match Start.of c with
    | .blank => isGapChar c = true
    | .letter => isWordStart c = true
    | .digit => c.isDigit = true
    | .quote => c = '"'
    | .other => True := by
  unfold Start.of
  split_ifs <;> trivial

/-- The scanner takes what is to be taken, and reads it so. -/
theorem taken_of_lexeme? {cs w : List Char} {l : Lexeme} (h : lexeme? cs = some (l, w)) :
    ∃ r, Taken r w cs ∧ r.Reads w l := by
  cases cs with
  | nil => cases h
  | cons c cs =>
    rw [lexeme?_cons] at h
    have hc := start_spec c
    cases hstart : Start.of c with
    | blank =>
      rw [hstart] at h hc
      cases h
      exact ⟨_, taken_blanks hc, .gap _ rfl⟩
    | letter =>
      rw [hstart] at h hc
      cases h
      exact ⟨_, taken_word hc, reads_wordRule _⟩
    | digit =>
      rw [hstart] at h hc
      obtain ⟨n, hn, heq⟩ := Option.map_eq_some_iff.mp h
      cases heq
      exact ⟨_, taken_number hc, .number hn⟩
    | quote =>
      rw [hstart] at h hc
      cases hc
      obtain ⟨inside, hinside, hread⟩ := Option.bind_eq_some_iff.mp h
      obtain ⟨t, ht, heq⟩ := Option.bind_eq_some_iff.mp hread
      obtain ⟨ds, hds, rfl⟩ := Option.map_eq_some_iff.mp ht
      cases heq
      exact ⟨_, taken_string hinside, .string (decodes_of_unescape? hds)⟩
    | other =>
      rw [hstart] at h
      cases hcomment : commentChars? (c :: cs) with
      | some comment =>
        rw [hcomment] at h
        cases h
        obtain ⟨r, hr, htaken⟩ := taken_comment hcomment
        refine ⟨r, htaken, .gap _ ?_⟩
        simp only [List.mem_cons, List.not_mem_nil, or_false] at hr
        rcases hr with rfl | rfl | rfl <;> rfl
      | none =>
        rw [hcomment] at h
        obtain ⟨⟨m, x⟩, hm, heq⟩ := Option.map_eq_some_iff.mp h
        cases heq
        exact ⟨_, taken_mark hstart hcomment hm, .mark m _⟩

/-- The scanner takes nothing only if nothing is to be taken, or a string with an unknown
escape. -/
theorem lexeme?_eq_none {cs : List Char} (h : lexeme? cs = none) :
    (∀ (r : Rule) w, w <+: cs → w ∉ r.language) ∨
      ∃ inside, Taken .string ('"' :: inside ++ ['"']) cs ∧ UnknownEscape inside := by
  cases cs with
  | nil =>
    left
    intro r w hpre hw
    obtain ⟨c, rest, rfl, _⟩ := head_of_mem hw
    simp at hpre
  | cons c cs =>
    rw [lexeme?_cons] at h
    have hc := start_spec c
    cases hstart : Start.of c with
    | blank | letter =>
      rw [hstart] at h
      cases h
    | digit =>
      rw [hstart] at h hc
      obtain ⟨n, hn⟩ := numeral_read? (numeral_numberChars hc cs)
      rw [hn] at h
      cases h
    | quote =>
      rw [hstart] at h hc
      cases hc
      cases hinside : stringInside? cs with
      | none => exact .inl (no_string hinside)
      | some inside =>
        have hunread : unescape? inside = none := by
          cases hread : unescape? inside with
          | none => rfl
          | some ds => simp [hinside, stringToken?, hread] at h
        exact .inr ⟨inside, taken_string hinside,
          unknownEscape_of_mem (mem_of_stringInside? hinside).1 hunread⟩
    | other =>
      rw [hstart] at h
      cases hcomment : commentChars? (c :: cs) with
      | some comment =>
        rw [hcomment] at h
        cases h
      | none =>
        rw [hcomment] at h
        exact .inl (no_mark hstart hcomment (Option.map_eq_none_iff.mp h))

/-- What is to be taken and can be read is what the scanner takes. -/
theorem Taken.lexeme? {r : Rule} {w cs : List Char} {l : Lexeme} (h : Taken r w cs)
    (hl : r.Reads w l) : lexeme? cs = some (l, w) := by
  cases hlexeme : Source.lexeme? cs with
  | some x =>
    obtain ⟨l', w'⟩ := x
    obtain ⟨r', htaken, hreads⟩ := taken_of_lexeme? hlexeme
    obtain ⟨rfl, rfl⟩ := h.unique htaken
    rw [hl.unique hreads]
  | none =>
    rcases lexeme?_eq_none hlexeme with hno | ⟨inside, htaken, hunknown⟩
    · exact absurd h.mem (hno r w h.isPrefix)
    · obtain ⟨rfl, rfl⟩ := h.unique htaken
      obtain ⟨ds, hread, _⟩ := unescape?_of_reads hl
      rw [hunknown.unescape?] at hread
      cases hread

end EntityScript.Source
