import EntityScript.Proofs.Source.Positions
import EntityScript.Proofs.Source.Reading
import EntityScript.Source.Program

/-! # Where texts are refused

A reader only ever takes tokens from the front, and where it stops it keeps the tokens that it has
not taken. So what is left is an end of the tokens of the text, whether a reader goes through or
not (`Parse.Keeps`); each form of reading keeps that of its parts, and so programs and
expressions do (`program_keeps`, `wholeExpr_keeps`).

A refusal is therefore placed at the start of a token or at the end of the text, and that of the
scanner where the scan got stuck (`ScriptFault.PlacedAt`). None of these bytes is within a
character or at a line feed, so the position and the context of a fault are those of the byte
(`ScriptFault.placed_exactly`). -/

namespace EntityScript

open Source

namespace Source

/-- The tokens in front of which a refusal stands, if it stands in front of tokens. -/
def Refusal.rest? : Refusal → Option (List Spanned)
  | .expected _ rest | .misplaced _ rest => some rest
  | .duplicateField _ _ | .duplicateEvent _ _ | .duplicateEntity _ => none

namespace Parse

variable {α β : Type}

/-! ## Readers keep the end of the tokens -/

/-- Whether it is a result or a refusal, what is left is an end of the tokens. -/
def Left (ts : List Spanned) : Except Refusal (α × List Spanned) → Prop
  | .ok (_, rest) => rest <:+ ts
  | .error refusal => ∀ rest, refusal.rest? = some rest → rest <:+ ts

/-- A reader that leaves an end of the tokens, whatever they are. -/
def Keeps (p : Parse α) : Prop := ∀ ts, Left ts (p ts)

theorem Left.of_suffix {ts ts' : List Spanned} {x : Except Refusal (α × List Spanned)}
    (h : Left ts' x) (hts : ts' <:+ ts) : Left ts x := by
  match x with
  | .ok (_, rest) => exact List.IsSuffix.trans h hts
  | .error refusal => exact fun rest hrest => (h rest hrest).trans hts

/-- What is made of a result without reading on leaves the same. -/
theorem Left.map {ts : List Spanned} {x : Except Refusal (α × List Spanned)} (h : Left ts x)
    {f : α × List Spanned → β × List Spanned} (hf : ∀ r, (f r).2 = r.2) : Left ts (x.map f) := by
  match x with
  | .ok r =>
    show (f r).2 <:+ ts
    rw [hf r]
    exact h
  | .error refusal => exact h

/-- A reader behind a token. -/
theorem Keeps.behind {p : Parse α} (h : Keeps p) (s : Spanned) (rest : List Spanned) :
    Left (s :: rest) (p rest) :=
  (h rest).of_suffix (List.suffix_cons s rest)

theorem Keeps.bind {p : Parse α} {f : α → Parse β} (h : Keeps p) (hf : ∀ a, Keeps (f a)) :
    Keeps (p >>= f) := by
  intro ts
  have hp := h ts
  cases hr : p ts with
  | ok r =>
    rw [bind_ok hr]
    rw [hr] at hp
    exact (hf r.1 r.2).of_suffix hp
  | error refusal =>
    rw [bind_error hr]
    rw [hr] at hp
    exact hp

theorem Keeps.fuelled {p : Nat → Parse α} (h : ∀ fuel, Keeps (p fuel)) : Keeps (fuelled p) :=
  fun ts => h (ts.length + 1) ts

/-! ### Elementary readers -/

theorem pure_keeps (a : α) : Keeps (pure a : Parse α) := fun _ => List.suffix_rfl

theorem unexpected_keeps (what : String) : Keeps (unexpected what : Parse α) := by
  rintro ts rest ⟨⟩
  exact List.suffix_rfl

theorem misplaced_keeps (problem : String) : Keeps (misplaced problem : Parse α) := by
  rintro ts rest ⟨⟩
  exact List.suffix_rfl

/-- A refusal that does not stand in front of tokens. -/
theorem throw_keeps {refusal : Refusal} (h : refusal.rest? = none) :
    Keeps (throw refusal : Parse α) := by
  intro ts rest hrest
  rw [h] at hrest
  cases hrest

theorem eat_keeps (m : Mark) : Keeps (eat m) := by
  intro ts
  unfold eat
  split
  · split
    · exact List.suffix_cons _ _
    · exact List.suffix_rfl
  · exact List.suffix_rfl

theorem comes_keeps (m : Mark) : Keeps (comes m) := by
  intro ts
  unfold comes
  split <;> exact List.suffix_rfl

theorem expect_keeps (m : Mark) : Keeps (expect m) := by
  refine (eat_keeps m).bind fun taken => ?_
  cases taken with
  | true => exact pure_keeps ()
  | false => exact unexpected_keeps _

theorem expectWord_keeps (k : Keyword) : Keeps (expectWord k) := by
  intro ts
  unfold expectWord
  split
  · split
    · exact List.suffix_cons _ _
    · exact unexpected_keeps _ _
  · exact unexpected_keeps _ _

theorem ident_keeps (what : String) : Keeps (ident what) := by
  intro ts
  unfold ident
  split
  · exact List.suffix_cons _ _
  · exact unexpected_keeps _ _

theorem atEnd_keeps : Keeps atEnd := fun _ => List.suffix_rfl

/-! ### Lists -/

theorem itemsThrough_keeps {item : Parse α} (h : Keeps item) (close : Mark) (fuel : Nat) :
    Keeps (itemsThrough item close fuel) := by
  induction fuel with
  | zero => exact unexpected_keeps _
  | succ fuel ih =>
    refine h.bind fun a => (eat_keeps close).bind fun closed => ?_
    cases closed with
    | true => exact pure_keeps _
    | false => exact (expect_keeps _).bind fun _ => ih.bind fun as => pure_keeps _

theorem listThrough_keeps {item : Parse α} (h : Keeps item) (close : Mark) :
    Keeps (listThrough item close) := by
  refine (eat_keeps close).bind fun closed => ?_
  cases closed with
  | true => exact pure_keeps _
  | false => exact .fuelled (itemsThrough_keeps h close)

/-! ## Expressions -/

theorem scalar?_suffix {ts rest : List Spanned} {v : Value} (h : scalar? ts = some (v, rest)) :
    rest <:+ ts := by
  unfold scalar? at h
  split at h <;> cases h
  case h_2 => exact (List.suffix_cons _ _).trans (List.suffix_cons _ _)
  all_goals exact List.suffix_cons _ _

section Levels

variable {op? : Token → Option (Expr → Expr → Expr)} {operand inner : Parse Expr}

theorem chainRest_keeps (h : Keeps operand) (fuel : Nat) (left : Expr) :
    Keeps (chainRest op? operand fuel left) := by
  induction fuel generalizing left with
  | zero => exact pure_keeps left
  | succ fuel ih =>
    intro ts
    unfold chainRest
    split
    · exact List.suffix_rfl
    · split
      · exact List.suffix_rfl
      · exact (h.bind fun right => ih _).behind _ _

theorem chain_keeps (h : Keeps operand) : Keeps (chain op? operand) :=
  h.bind fun left => .fuelled fun fuel => chainRest_keeps h fuel left

theorem negation_keeps (h : Keeps operand) : Keeps (negation operand) := by
  intro ts
  fun_induction negation operand ts with
  | case1 start stop rest ih => exact (ih.of_suffix (List.suffix_cons _ _)).map fun _ => rfl
  | case2 ts _ => exact h ts

theorem indexRest_keeps (h : Keeps inner) (pool : String) : Keeps (indexRest inner pool) :=
  h.bind fun _ => (expect_keeps _).bind fun _ => pure_keeps _

theorem named_keeps (h : Keeps inner) (name : String) : Keeps (named inner name) := by
  intro ts
  unfold named
  split
  · exact (((indexRest_keeps h name).behind _ _).of_suffix (List.suffix_cons _ _)).of_suffix
      (List.suffix_cons _ _)
  · exact (indexRest_keeps h name).behind _ _
  · exact ((ident_keeps _).behind _ _).map fun _ => rfl
  · exact List.suffix_rfl

theorem term_keeps (h : Keeps inner) : Keeps (term inner) := by
  intro ts
  fun_induction term inner ts with
  | case1 ts v rest hscalar => exact scalar?_suffix hscalar
  | case2 start stop rest hscalar ih => exact (ih.of_suffix (List.suffix_cons _ _)).map fun _ => rfl
  | case3 start stop rest hscalar =>
    exact Keeps.behind (h.bind fun _ => (expect_keeps _).bind fun _ => pure_keeps _) _ rest
  | case4 name start stop rest hscalar => exact (named_keeps h name).behind _ rest
  | case5 ts _ _ _ _ => exact unexpected_keeps _ ts

theorem exprWith_keeps (h : Keeps inner) : Keeps (exprWith inner) :=
  have hcomparison : Keeps (chain comparisonOp? (chain sumOp? (chain productOp? (term inner)))) :=
    chain_keeps (chain_keeps (chain_keeps (term_keeps h)))
  chain_keeps (chain_keeps (negation_keeps hcomparison))

end Levels

theorem exprWithin_keeps (depth : Nat) : Keeps (exprWithin depth) := by
  induction depth with
  | zero => exact unexpected_keeps _
  | succ depth ih => exact exprWith_keeps ih

theorem expr_keeps : Keeps expr := .fuelled exprWithin_keeps

theorem wholeExpr_keeps : Keeps wholeExpr := by
  refine expr_keeps.bind fun e => atEnd_keeps.bind fun done => ?_
  cases done with
  | true => exact (pure_keeps ()).bind fun _ => pure_keeps e
  | false => exact (unexpected_keeps _).bind fun _ => pure_keeps e

/-! ## Actions -/

theorem args?_keeps : Keeps args? := by
  refine (eat_keeps _).bind fun listed => ?_
  cases listed with
  | true => exact (listThrough_keeps expr_keeps _).bind fun _ => pure_keeps _
  | false => exact pure_keeps _

theorem indexedSlot_keeps : Keeps indexedSlot := by
  refine (ident_keeps _).bind fun pool => (eat_keeps _).bind fun dotted => ?_
  have hindex : Keeps (expect .leftBracket >>= fun _ => expr >>= fun index =>
      expect .rightBracket >>= fun _ => pure (pool, index)) :=
    (expect_keeps _).bind fun _ => expr_keeps.bind fun _ => (expect_keeps _).bind fun _ =>
      pure_keeps _
  cases dotted with
  | true => exact (ident_keeps _).bind fun _ => hindex
  | false => exact hindex

/-- Going back is to the tokens in front of the target. -/
theorem slot_keeps : Keeps slot := by
  intro ts
  have hindexed := indexedSlot_keeps ts
  unfold slot
  split
  · rename_i pool index rest hok
    rw [hok] at hindexed
    exact hindexed
  · exact (ident_keeps _ ts).map fun _ => rfl

/-- What is made of a target, with an index or without. -/
theorem ofSlot_keeps {make : String × Option Expr → Parse α}
    (hindexed : ∀ pool index, Keeps (make (pool, some index)))
    (hnamed : ∀ name, Keeps (make (name, none))) : Keeps (slot >>= make) := by
  refine slot_keeps.bind fun target => ?_
  obtain ⟨name, index⟩ := target
  cases index with
  | none => exact hnamed name
  | some index => exact hindexed name index

theorem assignment_keeps : Keeps assignment :=
  expr_keeps.bind fun _ => (expect_keeps _).bind fun _ =>
    ofSlot_keeps (fun _ _ => pure_keeps _) fun _ => pure_keeps _

theorem emitPath_keeps : Keeps emitPath := by
  refine (ident_keeps _).bind fun first => (eat_keeps _).bind fun more => ?_
  cases more with
  | false => exact pure_keeps _
  | true =>
    refine (ident_keeps _).bind fun second => (eat_keeps _).bind fun more => ?_
    cases more with
    | false => exact pure_keeps _
    | true =>
      refine (ident_keeps _).bind fun third => (eat_keeps _).bind fun more => ?_
      cases more with
      | false => exact pure_keeps _
      | true => exact (misplaced_keeps _).bind fun _ => pure_keeps _

theorem emit_keeps : Keeps emit := by
  refine emitPath_keeps.bind fun ⟨target, event⟩ => args?_keeps.bind fun args =>
    (eat_keeps _).bind fun arrow => ?_
  cases arrow with
  | false => exact pure_keeps _
  | true =>
    cases target with
    | remote entity field =>
      exact (misplaced_keeps _).bind fun _ =>
        ofSlot_keeps (fun _ _ => pure_keeps _) fun _ => pure_keeps _
    | implicit | self | named name =>
      exact ofSlot_keeps (fun _ _ => pure_keeps _) fun _ => pure_keeps _

theorem subscription_keeps : Keeps subscription :=
  (ident_keeps _).bind fun _ => (expect_keeps _).bind fun _ => (ident_keeps _).bind fun _ =>
    (expect_keeps _).bind fun _ => (ident_keeps _).bind fun _ => pure_keeps _

theorem subscribe_keeps : Keeps subscribe :=
  subscription_keeps.bind fun _ => args?_keeps.bind fun _ => pure_keeps _

theorem unsubscribe_keeps : Keeps unsubscribe :=
  subscription_keeps.bind fun _ => pure_keeps _

section Actions

variable {inner : Parse Action}

theorem actionsThrough_keeps (h : Keeps inner) (fuel : Nat) :
    Keeps (actionsThrough inner fuel) := by
  induction fuel with
  | zero => exact unexpected_keeps _
  | succ fuel ih =>
    have hmore : Keeps (inner >>= fun a => actionsThrough inner fuel >>= fun as =>
        pure (a :: as)) := h.bind fun _ => ih.bind fun _ => pure_keeps _
    refine (eat_keeps _).bind fun closed => ?_
    cases closed with
    | true => exact pure_keeps _
    | false =>
      refine atEnd_keeps.bind fun done => ?_
      cases done with
      | true => exact (unexpected_keeps _).bind fun _ => hmore
      | false => exact hmore

theorem checkWith_keeps (h : Keeps inner) : Keeps (checkWith inner) := by
  refine expr_keeps.bind fun condition => (eat_keeps _).bind fun colon => ?_
  cases colon with
  | true => exact h.bind fun _ => pure_keeps _
  | false =>
    refine (comes_keeps _).bind fun brace => ?_
    cases brace with
    | true => exact h.bind fun _ => pure_keeps _
    | false => exact pure_keeps _

theorem actionWith_keeps (h : Keeps inner) : Keeps (actionWith inner) := by
  intro ts
  unfold actionWith
  split
  · exact Keeps.behind ((Keeps.fuelled (actionsThrough_keeps h)).bind fun _ => pure_keeps _) _ _
  · exact (checkWith_keeps h).behind _ _
  · exact emit_keeps.behind _ _
  · exact subscribe_keeps.behind _ _
  · exact unsubscribe_keeps.behind _ _
  · exact assignment_keeps ts

end Actions

theorem actionWithin_keeps (depth : Nat) : Keeps (actionWithin depth) := by
  induction depth with
  | zero => exact unexpected_keeps _
  | succ depth ih => exact actionWith_keeps ih

theorem body_keeps : Keeps body :=
  .fuelled (actionsThrough_keeps (.fuelled actionWithin_keeps))

/-! ## Programs -/

theorem literalWithin_keeps (depth : Nat) : Keeps (literalWithin depth) := by
  induction depth with
  | zero => exact unexpected_keeps _
  | succ depth ih =>
    intro ts
    unfold literalWithin literalWith
    split
    · rename_i r hscalar
      exact scalar?_suffix hscalar
    · split
      · exact (unexpected_keeps _).behind _ _
      · exact Keeps.behind ((expect_keeps _).bind fun _ => (listThrough_keeps ih _).bind fun _ =>
          pure_keeps _) _ _
      · exact unexpected_keeps _ ts

theorem field_keeps : Keeps field :=
  (ident_keeps _).bind fun _ => (expect_keeps _).bind fun _ =>
    (Keeps.fuelled literalWithin_keeps).bind fun _ => pure_keeps _

theorem event_keeps : Keeps event := by
  refine (ident_keeps _).bind fun name => (eat_keeps _).bind fun listed => ?_
  have hbody : ∀ params, Keeps (expect .leftBrace >>= fun _ => body >>= fun actions =>
      pure (⟨name, params, actions⟩ : Event)) := fun _ =>
    (expect_keeps _).bind fun _ => body_keeps.bind fun _ => pure_keeps _
  cases listed with
  | true => exact (listThrough_keeps (ident_keeps _) _).bind hbody
  | false => exact (pure_keeps _).bind hbody

theorem member_keeps : Keeps member := by
  intro ts
  unfold member
  split
  · exact (field_keeps.behind _ _).map fun _ => rfl
  · exact (event_keeps.behind _ _).map fun _ => rfl
  · exact unexpected_keeps _ ts

/-- A name that comes twice is not refused in front of tokens. -/
theorem rest?_of_clash? {entity : String} {before : List Member} {m : Member} {refusal : Refusal}
    (h : clash? entity before m = some refusal) : refusal.rest? = none := by
  cases m with
  | field name value =>
    obtain ⟨-, ⟨⟩⟩ := Option.ite_none_right_eq_some.mp h
    rfl
  | event e =>
    obtain ⟨-, ⟨⟩⟩ := Option.ite_none_right_eq_some.mp h
    rfl

theorem membersThrough_keeps (entity : String) (fuel : Nat) (before : List Member) :
    Keeps (membersThrough (clash? entity) fuel before) := by
  induction fuel generalizing before with
  | zero => exact unexpected_keeps _
  | succ fuel ih =>
    refine (eat_keeps _).bind fun closed => ?_
    cases closed with
    | true => exact pure_keeps _
    | false =>
      refine member_keeps.bind fun m => ?_
      cases hclash : clash? entity before m with
      | some refusal => exact throw_keeps (rest?_of_clash? hclash)
      | none => exact ih _

theorem declaration_keeps : Keeps declaration :=
  (expectWord_keeps _).bind fun _ => (ident_keeps _).bind fun name => (expect_keeps _).bind fun _ =>
    (Keeps.fuelled fun fuel => membersThrough_keeps name fuel []).bind fun _ => pure_keeps _

theorem declarations_keeps (fuel : Nat) (before : List Declaration) :
    Keeps (declarations fuel before) := by
  induction fuel generalizing before with
  | zero => exact unexpected_keeps _
  | succ fuel ih =>
    refine atEnd_keeps.bind fun done => ?_
    cases done with
    | true => exact pure_keeps _
    | false =>
      refine declaration_keeps.bind fun d => ?_
      cases before.any fun d' => d'.name == d.name with
      | true => exact (throw_keeps rfl).bind fun _ => ih _
      | false => exact ih _

theorem program_keeps : Keeps program :=
  (Keeps.fuelled fun fuel => declarations_keeps fuel []).bind fun _ => pure_keeps _

theorem get_keeps : Keeps (get : Parse (List Spanned)) := fun _ => List.suffix_rfl

end Parse

end Source

/-! ## Places of faults -/

/-- The position and the context that a fault shows. -/
def ScriptFault.place? : ScriptFault → Option (Position × String)
  | .lexical position context => some (position, context)
  | .parse position _ context => some (position, context)
  | _ => none

/-- The byte of the text at which a fault is placed: that at which the scan got stuck, the start
of a token in front of which reading stopped, or the end. -/
inductive ScriptFault.PlacedAt (source : String) : ScriptFault → Nat → Prop
  | lexeme {offset : Nat} {position : Position} {context : String} :
    StuckAt 0 source.toList offset → PlacedAt source (.lexical position context) offset
  | token {ss : List Spanned} {s : Spanned} {position : Position} {problem context : String} :
    scan source = .ok ss → s ∈ ss → PlacedAt source (.parse position problem context) s.start
  | stop {ss : List Spanned} {position : Position} {problem context : String} :
    scan source = .ok ss → PlacedAt source (.parse position problem context) source.utf8ByteSize

namespace Source

/-! ### No line feed stands there -/

theorem Taken.head?_ne {r : Rule} {w cs : List Char} (h : Taken r w cs) (hr : r.isGap = false) :
    cs.head? ≠ some '\n' := by
  intro hhead
  obtain ⟨rest, rfl⟩ := List.head?_eq_some_iff.mp hhead
  have hblank : r.start = .blank := start_eq h.mem h.isPrefix
  cases r with
  | blanks => cases hr
  | _ => cases hblank

theorem Stuck.head?_ne {cs : List Char} (h : Stuck cs) : cs.head? ≠ some '\n' := by
  cases h with
  | noLexeme hne hno =>
    intro hhead
    obtain ⟨rest, rfl⟩ := List.head?_eq_some_iff.mp hhead
    exact hno .blanks ['\n'] ⟨rest, rfl⟩ (mem_blanks.mpr ⟨by simp, by simp [isGapChar]⟩)
  | unknownEscape htaken _ => exact htaken.head?_ne rfl
  | glued hnumber _ _ => exact hnumber.head?_ne rfl

theorem Tokenized.exists_lineAt {source : String} {ss : List Spanned} {s : Spanned}
    (h : Tokenized 0 source.toList ss) (hs : s ∈ ss) :
    ∃ earlier left right, LineAt source s.start earlier left right := by
  obtain ⟨r, w, rest, ⟨before, hsource, hstart, _⟩, htaken, hreads⟩ := h.lexeme s hs
  have hgap : r.isGap = false := by
    generalize hl : Lexeme.token s.token = l at hreads
    cases hreads with
    | gap => cases hl
    | _ => rfl
  rw [Nat.zero_add] at hstart
  rw [hstart]
  exact Border.exists_lineAt (hsource.trans (List.append_assoc _ _ _))
    fun hapart => htaken.head?_ne hgap hapart.2

theorem StuckAt.exists_lineAt {source : String} {offset : Nat}
    (h : StuckAt 0 source.toList offset) :
    ∃ earlier left right, LineAt source offset earlier left right := by
  obtain ⟨before, rest, hreaches, hstuck, hoffset⟩ := h
  rw [Nat.zero_add] at hoffset
  rw [hoffset]
  exact Border.exists_lineAt hreaches.eq_append fun hapart => hstuck.head?_ne hapart.2

theorem exists_lineAt_stop (source : String) :
    ∃ earlier left right, LineAt source source.utf8ByteSize earlier left right := by
  rw [← byteSize_toList]
  exact Border.exists_lineAt (List.append_nil _).symm fun hapart => nomatch hapart.2

theorem scan_right (source : String) :
    match scan source with
    | .ok ss => Tokenized 0 source.toList ss
    | .error e => StuckAt 0 source.toList e :=
  scanFrom_right source.toList.length 0 source.toList (Nat.le_refl _)

end Source

namespace ScriptFault

variable {source : String} {fault : ScriptFault} {offset : Nat}

theorem PlacedAt.exists_lineAt (h : fault.PlacedAt source offset) :
    ∃ earlier left right, LineAt source offset earlier left right := by
  cases h with
  | lexeme hstuck => exact hstuck.exists_lineAt
  | token hscan hs =>
    have hright := scan_right source
    rw [hscan] at hright
    exact hright.exists_lineAt hs
  | stop => exact exists_lineAt_stop source

/-- A refusal is placed where what is left of the tokens starts. -/
theorem placed_of_rest {ss rest : List Spanned} (hscan : scan source = .ok ss)
    (hrest : rest <:+ ss) (problem : String) :
    (Refusal.parseFault source problem rest).PlacedAt source (Refusal.offset source rest) := by
  cases rest with
  | nil => exact .stop hscan
  | cons s rest => exact .token hscan (hrest.subset List.mem_cons_self)

/-- The faults of a reader that keeps the end of the tokens show the place at which they are. -/
theorem placed_of_run {α : Type} {p : Parse α} (hp : p.Keeps) (h : p.run source = .error fault)
    {position : Position} {context : String} (hplace : fault.place? = some (position, context)) :
    ∃ offset, fault.PlacedAt source offset ∧ position = Position.ofOffset source offset ∧
      context = position.context source := by
  have hright := scan_right source
  unfold Parse.run at h
  split at h
  · rename_i e hscan
    rw [hscan] at hright
    cases h
    cases hplace
    exact ⟨e, .lexeme hright, rfl, rfl⟩
  · rename_i ss hscan
    have hleft := hp ss
    split at h
    · rename_i refusal hrefusal
      rw [hrefusal] at hleft
      cases h
      cases refusal with
      | expected what rest =>
        cases hplace
        exact ⟨_, placed_of_rest hscan (hleft rest rfl) _, rfl, rfl⟩
      | misplaced problem rest =>
        cases hplace
        exact ⟨_, placed_of_rest hscan (hleft rest rfl) _, rfl, rfl⟩
      | duplicateField | duplicateEvent | duplicateEntity => cases hplace
    · cases h

/-- **Faults are placed exactly.** A fault of a text as tokens, as a program or as an expression
that shows a position is placed at the start of a token, where the scan got stuck, or at the end
of the text. The position is that of this byte, its line counted from the line feeds before it and
its column from the characters of the line before it; and the context is the line of the byte,
without its end, and below it the caret behind one blank fewer than the column. The positions of
bytes between characters are in the order of the bytes, so a position is that of one byte only. -/
theorem placed_exactly (source : String) :
    (∀ fault : ScriptFault, tokenize source = .error fault ∨ Program.parse source = .error fault ∨
        Expr.parse source = .error fault →
      ∀ position context, fault.place? = some (position, context) →
      ∃ offset, fault.PlacedAt source offset ∧ Border source offset ∧
        position = Position.ofOffset source offset ∧
        ∃ earlier left right, LineAt source offset earlier left right ∧
          position = ⟨earlier.count '\n' + 1, left.length + 1⟩ ∧
          context = String.ofList
            (left ++ right ++ '\n' :: List.replicate (position.column - 1) ' ' ++ ['^'])) ∧
    (∀ a b, Border source a → Border source b →
      (Position.ofOffset source a < Position.ofOffset source b ↔ a < b)) ∧
    (∀ a b, Border source a → Border source b →
      Position.ofOffset source a = Position.ofOffset source b → a = b) := by
  refine ⟨?_, fun a b => Position.ofOffset_lt_iff, fun a b => Position.ofOffset_injective⟩
  intro fault hfault position context hplace
  have hplaced : ∃ offset, fault.PlacedAt source offset ∧
      position = Position.ofOffset source offset ∧ context = position.context source := by
    rcases hfault with h | h | h
    · exact placed_of_run Parse.get_keeps h hplace
    · exact placed_of_run Parse.program_keeps h hplace
    · exact placed_of_run Parse.wholeExpr_keeps h hplace
  obtain ⟨offset, hat, rfl, rfl⟩ := hplaced
  obtain ⟨earlier, left, right, hline⟩ := hat.exists_lineAt
  refine ⟨offset, hat, hline.border, rfl, earlier, left, right, hline, hline.ofOffset_eq, ?_⟩
  rw [hline.context_eq, hline.ofOffset_eq]
  rfl

/-- A keyword where an expression should go on, on the second line and behind a carriage return
that ends no line; and the two ends of a character of two bytes. -/
theorem placed_exactly_second_line :
    let source := "\"é\" +\r\n \r has x"
    let fault := ScriptFault.parse ⟨2, 4⟩ "expected expression, found 'has'" " \r has x\n   ^"
    Expr.parse source = .error fault ∧
    (∃ offset, fault.PlacedAt source offset ∧ Border source offset ∧
      ⟨2, 4⟩ = Position.ofOffset source offset ∧
      ∃ earlier left right, LineAt source offset earlier left right ∧
        (⟨2, 4⟩ : Position) = ⟨earlier.count '\n' + 1, left.length + 1⟩ ∧
        " \r has x\n   ^" = String.ofList
          (left ++ right ++ '\n' :: List.replicate 3 ' ' ++ ['^'])) ∧
    Border source 1 ∧ Border source 3 ∧
    Position.ofOffset source 1 < Position.ofOffset source 3 := by
  intro source fault
  have hfault : Expr.parse source = .error fault := by decide +kernel
  have hbefore : Border source 1 := ⟨['"'], source.toList.drop 1, by decide, by decide⟩
  have hbehind : Border source 3 := ⟨['"', 'é'], source.toList.drop 2, by decide, by decide⟩
  obtain ⟨hplaced, horder, -⟩ := placed_exactly source
  exact ⟨hfault, hplaced fault (.inr (.inr hfault)) _ _ rfl, hbefore, hbehind,
    (horder 1 3 hbefore hbehind).mpr (by decide)⟩

end ScriptFault

end EntityScript
