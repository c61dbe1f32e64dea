import EntityScript.Proofs.Source.Tokens

/-! # Positions and lines

A border is a byte of a text that lies between two characters, or at one of its ends. Positions
tell the borders of a text apart and keep their order (`Position.ofOffset_lt_iff`).

The line of a border is what stands around it between two ends of lines (`LineAt`). The context of
a position shows that line, with the caret behind as many blanks as there are characters of the
line before the border (`LineAt.context_eq`). Every border has a line, but for one between a
carriage return and the line feed with which it ends a line (`Border.exists_lineAt`). -/

namespace EntityScript.Source

/-! ## Borders -/

/-- The byte lies between two characters of the text, or at one of its ends. -/
def Border (source : String) (offset : Nat) : Prop :=
  ∃ before rest, source.toList = before ++ rest ∧ offset = byteSize before

theorem byteSize_toList (s : String) : byteSize s.toList = s.utf8ByteSize := by
  have hlist : ∀ cs, (String.ofList cs).utf8ByteSize = byteSize cs := by
    intro cs
    induction cs with
    | nil => rfl
    | cons c cs ih =>
      rw [String.ofList_cons, String.utf8ByteSize_append, String.utf8ByteSize_singleton, ih]
      rfl
  rw [← hlist, String.ofList_toList]

/-- The bytes of a start of a text are fewer exactly if there are fewer characters. -/
theorem byteSize_lt_iff {cs before mid : List Char} (h : before <+: cs) (h' : mid <+: cs) :
    byteSize before < byteSize mid ↔ ∃ v, v ≠ [] ∧ mid = before ++ v := by
  constructor
  · intro hlt
    obtain ⟨v, rfl⟩ | ⟨v, rfl⟩ := List.prefix_or_prefix_of_prefix h h'
    · refine ⟨v, ?_, rfl⟩
      rintro rfl
      simp at hlt
    · rw [byteSize_append] at hlt
      omega
  · rintro ⟨v, hv, rfl⟩
    have hpos := byteSize_pos hv
    rw [byteSize_append]
    omega

namespace Position

/-! ## The order of positions -/

/-- Lines come first, and columns within a line. -/
instance : LT Position := ⟨fun p q => p.line < q.line ∨ p.line = q.line ∧ p.column < q.column⟩

theorem lt_iff {p q : Position} :
    p < q ↔ p.line < q.line ∨ p.line = q.line ∧ p.column < q.column := Iff.rfl

theorem lt_irrefl (p : Position) : ¬ p < p := by
  rw [lt_iff]
  omega

theorem lt_trans {p q r : Position} (hpq : p < q) (hqr : q < r) : p < r := by
  rw [lt_iff] at hpq hqr ⊢
  omega

theorem lt_after (p : Position) (c : Char) : p < p.after c := by
  rw [lt_iff]
  unfold after
  split
  · exact .inl (Nat.lt_succ_self _)
  · exact .inr ⟨rfl, Nat.lt_succ_self _⟩

theorem lt_foldl {v : List Char} (hv : v ≠ []) (p : Position) : p < v.foldl after p := by
  induction v generalizing p with
  | nil => exact absurd rfl hv
  | cons c v ih =>
    by_cases hnil : v = []
    · rw [hnil]
      exact p.lt_after c
    · exact lt_trans (p.lt_after c) (ih hnil _)

theorem ofOffset_eq {source : String} {before rest : List Char}
    (h : source.toList = before ++ rest) :
    ofOffset source (byteSize before) = before.foldl after start := by
  rw [ofOffset, h, charsBefore_byteSize]

variable {source : String} {a b : Nat}

theorem ofOffset_lt (ha : Border source a) (hb : Border source b) (hlt : a < b) :
    ofOffset source a < ofOffset source b := by
  obtain ⟨before, rest, hsource, rfl⟩ := ha
  obtain ⟨mid, rest', hsource', rfl⟩ := hb
  obtain ⟨v, hv, rfl⟩ := (byteSize_lt_iff ⟨rest, hsource.symm⟩ ⟨rest', hsource'.symm⟩).mp hlt
  rw [ofOffset_eq hsource, ofOffset_eq hsource', List.foldl_append]
  exact lt_foldl hv _

/-- The positions of borders are in the order of the borders. -/
theorem ofOffset_lt_iff (ha : Border source a) (hb : Border source b) :
    ofOffset source a < ofOffset source b ↔ a < b := by
  constructor
  · intro hlt
    rcases Nat.lt_trichotomy a b with h | rfl | h
    · exact h
    · exact absurd hlt (lt_irrefl _)
    · exact absurd (lt_trans hlt (ofOffset_lt hb ha h)) (lt_irrefl _)
  · exact ofOffset_lt ha hb

theorem ofOffset_injective (ha : Border source a) (hb : Border source b)
    (h : ofOffset source a = ofOffset source b) : a = b := by
  rcases Nat.lt_trichotomy a b with hlt | heq | hlt
  · exact absurd (h ▸ ofOffset_lt ha hb hlt) (lt_irrefl _)
  · exact heq
  · exact absurd (h ▸ ofOffset_lt hb ha hlt) (lt_irrefl _)

/-! ## Lines and columns -/

/-- Without a line feed one stays on the line. -/
theorem foldl_plain {cs : List Char} (h : '\n' ∉ cs) (p : Position) :
    cs.foldl after p = ⟨p.line, p.column + cs.length⟩ := by
  induction cs generalizing p with
  | nil => rfl
  | cons c cs ih =>
    rw [List.mem_cons, not_or] at h
    rw [List.foldl_cons, ih h.2, after, if_neg (Ne.symm h.1), List.length_cons]
    simp only [Position.mk.injEq, true_and]
    omega

theorem line_foldl (cs : List Char) (p : Position) :
    (cs.foldl after p).line = p.line + cs.count '\n' := by
  induction cs generalizing p with
  | nil => rfl
  | cons c cs ih =>
    rw [List.foldl_cons, ih, List.count_cons]
    unfold after
    by_cases hc : c = '\n'
    · simp [hc]
      omega
    · simp [hc]

/-- Behind a line feed a line starts. -/
theorem foldl_feed (cs : List Char) :
    (cs ++ ['\n']).foldl after start = ⟨(cs ++ ['\n']).count '\n' + 1, 1⟩ := by
  have hline := line_foldl (cs ++ ['\n']) start
  have hcolumn : ((cs ++ ['\n']).foldl after start).column = 1 := by
    rw [List.foldl_append]
    rfl
  rw [Nat.add_comm]
  exact congrArg₂ Position.mk hline hcolumn

end Position

/-! ## Lines of a text -/

/-- Behind the line `line` the text goes on with `rest`: with the whole end of the line, or not at
all. -/
inductive LineEnd : List Char → List Char → Prop
  | feed {line : List Char} (later : List Char) : line.getLast? ≠ some '\r' →
    LineEnd line ('\n' :: later)
  | returnFeed (line later : List Char) : LineEnd line ('\r' :: '\n' :: later)
  | stop (line : List Char) : LineEnd line []

/-- The byte is on a line of the text, and not behind its end: behind the lines `earlier` come
the characters `left` of the line, then the byte, and then the other characters `right` of the
line. -/
structure LineAt (source : String) (offset : Nat) (earlier left right : List Char) : Prop where
  place : offset = byteSize (earlier ++ left)
  first : earlier = [] ∨ ∃ cs, earlier = cs ++ ['\n']
  plain : '\n' ∉ left ++ right
  stops : ∃ rest, source.toList = earlier ++ (left ++ right) ++ rest ∧ LineEnd (left ++ right) rest

/-! ### Lines as they are split -/

theorem lineChars_feed (cs : List Char) :
    Text.lineChars ('\n' :: cs) = [] :: Text.lineChars cs := by
  rw [Text.lineChars]

theorem lineChars_returnFeed (cs : List Char) :
    Text.lineChars ('\r' :: '\n' :: cs) = [] :: Text.lineChars cs := by
  rw [Text.lineChars]

/-- A character that does not begin an end of line goes to the first line. -/
theorem lineChars_cons {c : Char} {cs : List Char} (hc : c ≠ '\n')
    (hreturn : c = '\r' → cs.head? ≠ some '\n') :
    Text.lineChars (c :: cs) =
      (c :: (Text.lineChars cs)[0]?.getD []) :: (Text.lineChars cs).tail := by
  rw [Text.lineChars]
  · cases Text.lineChars cs <;> rfl
  · rintro rest rfl rfl
    exact hreturn rfl rfl
  · exact hc

theorem getElem?_lineChars_cons {c : Char} (hc : c ≠ '\n') (cs : List Char) (i : Nat) :
    (Text.lineChars (c :: cs))[i + 1]? = (Text.lineChars cs)[i + 1]? := by
  by_cases hreturn : c = '\r' ∧ cs.head? = some '\n'
  · obtain ⟨rfl, hhead⟩ := hreturn
    obtain ⟨rest, rfl⟩ := List.head?_eq_some_iff.mp hhead
    rw [lineChars_returnFeed, lineChars_feed]
  · rw [lineChars_cons hc fun hr hhead => hreturn ⟨hr, hhead⟩]
    cases Text.lineChars cs <;> rfl

/-- The lines behind a line feed are counted on from it. -/
theorem getElem?_lineChars_behind (before cs : List Char) (i : Nat) :
    (Text.lineChars (before ++ '\n' :: cs))[before.count '\n' + i + 1]? =
      (Text.lineChars cs)[i]? := by
  induction before with
  | nil => simp [lineChars_feed]
  | cons c before ih =>
    by_cases hc : c = '\n'
    · have hcount : (c :: before).count '\n' + i + 1 = before.count '\n' + i + 1 + 1 := by
        rw [hc, List.count_cons_self]
        omega
      rw [hcount, hc, List.cons_append, lineChars_feed, List.getElem?_cons_succ, ih]
    · rw [List.count_cons_of_ne hc, List.cons_append, getElem?_lineChars_cons hc, ih]

/-- The first line goes as far as its end. -/
theorem getElem?_lineChars_first {line rest : List Char} (hline : '\n' ∉ line)
    (hend : LineEnd line rest) : (Text.lineChars (line ++ rest))[0]?.getD [] = line := by
  induction line with
  | nil =>
    cases hend with
    | feed later _ => rw [List.nil_append, lineChars_feed]; rfl
    | returnFeed later => rw [List.nil_append, lineChars_returnFeed]; rfl
    | stop => rfl
  | cons c line ih =>
    rw [List.mem_cons, not_or] at hline
    have hrest : LineEnd line rest := by
      cases hend with
      | feed later hlast =>
        refine .feed later fun h => hlast ?_
        rw [List.getLast?_cons, h]
        rfl
      | returnFeed later => exact .returnFeed line later
      | stop => exact .stop line
    have hreturn : c = '\r' → (line ++ rest).head? ≠ some '\n' := by
      rintro rfl hhead
      cases line with
      | cons d line =>
        cases hhead
        exact hline.2 List.mem_cons_self
      | nil =>
        cases hend with
        | feed later hlast => exact hlast rfl
        | returnFeed later => cases hhead
        | stop => cases hhead
    rw [List.cons_append, lineChars_cons (Ne.symm hline.1) hreturn]
    exact congrArg (c :: ·) (ih hline.2 hrest)

namespace LineAt

variable {source : String} {offset : Nat} {earlier left right : List Char}

theorem border (h : LineAt source offset earlier left right) : Border source offset := by
  obtain ⟨rest, hsource, _⟩ := h.stops
  exact ⟨earlier ++ left, right ++ rest, by simp [hsource], h.place⟩

/-- The line is counted from the line feeds before it, and the column from the characters of the
line before the place. -/
theorem ofOffset_eq (h : LineAt source offset earlier left right) :
    Position.ofOffset source offset = ⟨earlier.count '\n' + 1, left.length + 1⟩ := by
  obtain ⟨rest, hsource, _⟩ := h.stops
  have hleft : '\n' ∉ left := fun hmem => h.plain (List.mem_append_left _ hmem)
  have hborder : source.toList = (earlier ++ left) ++ (right ++ rest) := by simp [hsource]
  rw [h.place, Position.ofOffset_eq hborder, List.foldl_append, Position.foldl_plain hleft]
  obtain rfl | ⟨cs, rfl⟩ := h.first
  · simp only [List.foldl_nil, Position.start, Position.mk.injEq, List.count_nil, true_and]
    omega
  · rw [Position.foldl_feed]
    simp only [Position.mk.injEq, true_and]
    omega

theorem line_eq (h : LineAt source offset earlier left right) :
    (Text.lineChars source.toList)[earlier.count '\n']?.getD [] = left ++ right := by
  obtain ⟨rest, hsource, hend⟩ := h.stops
  rw [hsource]
  obtain rfl | ⟨cs, rfl⟩ := h.first
  · exact getElem?_lineChars_first h.plain hend
  · have hcount : (cs ++ ['\n']).count '\n' = cs.count '\n' + 0 + 1 := by simp
    have htext : cs ++ ['\n'] ++ (left ++ right) ++ rest =
        cs ++ '\n' :: ((left ++ right) ++ rest) := by simp
    rw [hcount, htext, getElem?_lineChars_behind cs _ 0]
    exact getElem?_lineChars_first h.plain hend

/-- The context is the line, and below it the caret behind as many blanks as the column says. -/
theorem context_eq (h : LineAt source offset earlier left right) :
    (Position.ofOffset source offset).context source =
      String.ofList (left ++ right ++ '\n' :: List.replicate left.length ' ' ++ ['^']) := by
  have hpad : min left.length (left ++ right).length = left.length := by simp
  rw [h.ofOffset_eq]
  simp only [Position.context, Nat.add_sub_cancel, h.line_eq, hpad]

end LineAt

/-! ### Every border has a line -/

/-- The characters behind the last line feed. -/
theorem exists_left (before : List Char) : ∃ earlier left, before = earlier ++ left ∧
    (earlier = [] ∨ ∃ cs, earlier = cs ++ ['\n']) ∧ '\n' ∉ left := by
  induction before using List.reverseRecOn with
  | nil => exact ⟨[], [], rfl, .inl rfl, List.not_mem_nil⟩
  | append_singleton before c ih =>
    by_cases hc : c = '\n'
    · exact ⟨before ++ [c], [], by simp, .inr ⟨before, by rw [hc]⟩, List.not_mem_nil⟩
    · obtain ⟨earlier, left, rfl, hfirst, hleft⟩ := ih
      refine ⟨earlier, left ++ [c], by simp, hfirst, ?_⟩
      simp [hleft, Ne.symm hc]

/-- The characters up to the next end of line. -/
theorem exists_right {left rest : List Char}
    (hapart : ¬ (left.getLast? = some '\r' ∧ rest.head? = some '\n')) :
    ∃ right after, rest = right ++ after ∧ '\n' ∉ right ∧ LineEnd (left ++ right) after := by
  induction rest generalizing left with
  | nil => exact ⟨[], [], rfl, List.not_mem_nil, .stop _⟩
  | cons c rest ih =>
    by_cases hc : c = '\n'
    · subst hc
      refine ⟨[], '\n' :: rest, rfl, List.not_mem_nil, .feed rest ?_⟩
      rw [List.append_nil]
      exact fun hlast => hapart ⟨hlast, rfl⟩
    by_cases hreturn : c = '\r' ∧ rest.head? = some '\n'
    · obtain ⟨rfl, hhead⟩ := hreturn
      obtain ⟨later, rfl⟩ := List.head?_eq_some_iff.mp hhead
      exact ⟨[], _, rfl, List.not_mem_nil, .returnFeed _ later⟩
    · have hnext : ¬ ((left ++ [c]).getLast? = some '\r' ∧ rest.head? = some '\n') := by
        simpa using hreturn
      obtain ⟨right, after, rfl, hright, hend⟩ := ih hnext
      refine ⟨c :: right, after, rfl, ?_, ?_⟩
      · simp [hright, Ne.symm hc]
      · simpa using hend

/-- A border has a line, if it is not between a carriage return and a line feed. -/
theorem Border.exists_lineAt {source : String} {before rest : List Char}
    (hsource : source.toList = before ++ rest)
    (hapart : ¬ (before.getLast? = some '\r' ∧ rest.head? = some '\n')) :
    ∃ earlier left right, LineAt source (byteSize before) earlier left right := by
  obtain ⟨earlier, left, rfl, hfirst, hleft⟩ := exists_left before
  have hapart' : ¬ (left.getLast? = some '\r' ∧ rest.head? = some '\n') := by
    rintro ⟨hlast, hhead⟩
    refine hapart ⟨?_, hhead⟩
    rw [List.getLast?_append, hlast]
    rfl
  obtain ⟨right, after, rfl, hright, hend⟩ := exists_right hapart'
  refine ⟨earlier, left, right, rfl, hfirst, ?_, after, by simp [hsource], hend⟩
  rw [List.mem_append, not_or]
  exact ⟨hleft, hright⟩

end EntityScript.Source
