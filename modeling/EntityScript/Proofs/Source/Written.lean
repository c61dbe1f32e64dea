import EntityScript.Proofs.Snapshot.Literal
import EntityScript.Proofs.Source.Reading

/-! # Expressions written out

An expression is written with parentheses around each operand that an operator has made
(`Expr.text`), so that no operand depends on how tightly operators bind. The text scans to the
tokens of the expression (`Expr.scansAs`), these derive it (`Expr.derived`), and what derives an
expression is read as that expression (`Expr.parse_eq_ok`). -/

namespace EntityScript

open Source Source.Grammar

/-! ## Text and tokens -/

/-- The mark of an operator. -/
def BinaryOp.mark : BinaryOp → Mark
  | .add => .plus
  | .sub => .minus
  | .mul => .star
  | .div => .slash
  | .mod => .percent
  | .eq => .equalTo
  | .ne => .notEqualTo
  | .lt => .less
  | .gt => .greater
  | .le => .atMost
  | .ge => .atLeast

/-- The keyword of an operator. -/
def LogicOp.keyword : LogicOp → Keyword
  | .and => .and
  | .or => .or

namespace Expr

/-- Whether an operator is on top. -/
def isCompound : Expr → Bool
  | .binary .. | .logic .. | .not _ => true
  | .literal _ | .var _ | .index .. | .property .. => false

/-- The text of an expression as an operand. -/
def operandText (e : Expr) (text : String) : String :=
  if e.isCompound then "(" ++ text ++ ")" else text

/-- An expression as written in a program. -/
def text : Expr → String
  | .literal v => Snapshot.value .empty v
  | .var name => name
  | .binary op l r => l.operandText l.text ++ " " ++ op.symbol ++ " " ++ r.operandText r.text
  | .logic op l r =>
    l.operandText l.text ++ " " ++ op.keyword.text ++ " " ++ r.operandText r.text
  | .not e => "not " ++ e.operandText e.text
  | .index pool e => pool ++ "[" ++ e.text ++ "]"
  | .property target name => target ++ "." ++ name

/-- The tokens of an expression as an operand. -/
def operandTokens (e : Expr) (ts : List Token) : List Token :=
  if e.isCompound then .mark .leftParen :: ts ++ [.mark .rightParen] else ts

/-- The tokens of an expression. -/
def tokens : Expr → List Token
  | .literal v => v.tokens .empty
  | .var name => [.ident name]
  | .binary op l r => l.operandTokens l.tokens ++ .mark op.mark :: r.operandTokens r.tokens
  | .logic op l r => l.operandTokens l.tokens ++ .keyword op.keyword :: r.operandTokens r.tokens
  | .not e => .keyword .not :: e.operandTokens e.tokens
  | .index pool e => .ident pool :: .mark .leftBracket :: e.tokens ++ [.mark .rightBracket]
  | .property target name => [.ident target, .mark .dot, .ident name]

/-- Whether an expression can be written: its names are names, and its literals are null,
truth values, strings and finite numbers. -/
def isWritable : Expr → Bool
  | .literal v =>
    match v with
    | .null | .bool _ | .string _ => true
    | .number n => Number.isFinite n
    | .pool _ | .entity _ => false
  | .var name => isName name
  | .binary _ l r | .logic _ l r => l.isWritable && r.isWritable
  | .not e => e.isWritable
  | .index pool e => isName pool && e.isWritable
  | .property target name => isName target && isName name

/-! ## The text scans to the tokens -/

/-- Before a delimiter, the text scans to the tokens. -/
def ScansAs (text : String) (ts : List Token) : Prop :=
  ∀ {rest : List Char} {us : List Token}, Delimited rest → Scans rest us →
    Scans (text.toList ++ rest) (ts ++ us)

theorem scansAs_operand {e : Expr} (h : ScansAs e.text e.tokens) :
    ScansAs (e.operandText e.text) (e.operandTokens e.tokens) := by
  unfold operandText operandTokens
  split
  · intro rest us _ hrest
    have hclose : Scans (')' :: rest) (.mark .rightParen :: us) :=
      hrest.plainMark .rightParen rfl
    have hinner := h (.cons (by decide) rest) hclose
    have hopen := hinner.plainMark .leftParen rfl
    simpa [Mark.text] using hopen
  · exact h

theorem scansAs_binary (op : BinaryOp) {l r : String} {ls rs : List Token} (hl : ScansAs l ls)
    (hr : ScansAs r rs) :
    ScansAs (l ++ " " ++ op.symbol ++ " " ++ r) (ls ++ .mark op.mark :: rs) := by
  intro rest us hends hrest
  have hsymbol : op.symbol = op.mark.text := by cases op <;> rfl
  have hright := (hr hends hrest).gap (c := ' ') rfl
  have hmark := hright.mark op.mark (fun _ => by simp [EndsMark])
  have hleft := hl (.cons (by decide) _) (hmark.gap (c := ' ') rfl)
  simpa [hsymbol] using hleft

theorem scansAs_logic (op : LogicOp) {l r : String} {ls rs : List Token} (hl : ScansAs l ls)
    (hr : ScansAs r rs) :
    ScansAs (l ++ " " ++ op.keyword.text ++ " " ++ r) (ls ++ .keyword op.keyword :: rs) := by
  intro rest us hends hrest
  have hright := (hr hends hrest).gap (c := ' ') rfl
  have hword := hright.keyword op.keyword (.cons rfl _)
  have hleft := hl (.cons (by decide) _) (hword.gap (c := ' ') rfl)
  simpa using hleft

/-- The text of an expression scans to its tokens. -/
theorem scansAs {e : Expr} (h : e.isWritable = true) : ScansAs e.text e.tokens := by
  induction e with
  | literal v => exact fun hends hrest => Value.scans_value .empty v hends hrest
  | var name => exact fun hends hrest => hrest.name h hends.endsWord
  | binary op l r ihl ihr =>
    simp only [isWritable, Bool.and_eq_true] at h
    exact scansAs_binary op (scansAs_operand (ihl h.1)) (scansAs_operand (ihr h.2))
  | logic op l r ihl ihr =>
    simp only [isWritable, Bool.and_eq_true] at h
    exact scansAs_logic op (scansAs_operand (ihl h.1)) (scansAs_operand (ihr h.2))
  | not e ih =>
    intro rest us hends hrest
    have hoperand := scansAs_operand (ih h) hends hrest
    have hnot := (hoperand.gap (c := ' ') rfl).keyword .not (.cons rfl _)
    simpa [text, tokens, Keyword.text] using hnot
  | index pool e ih =>
    simp only [isWritable, Bool.and_eq_true] at h
    intro rest us hends hrest
    have hclose : Scans (']' :: rest) (.mark .rightBracket :: us) :=
      hrest.plainMark .rightBracket rfl
    have hinner := ih h.2 (.cons (by decide) rest) hclose
    have hopen := hinner.plainMark .leftBracket rfl
    have hpool := hopen.name h.1 (.cons (c := '[') rfl _)
    simpa [text, tokens, Mark.text] using hpool
  | property target name =>
    simp only [isWritable, Bool.and_eq_true] at h
    intro rest us hends hrest
    have hname := hrest.name h.2 hends.endsWord
    have hdot := hname.plainMark .dot rfl
    have htarget := hdot.name h.1 (.cons (c := '.') rfl _)
    simpa [text, tokens, Mark.text] using htarget

/-! ## The tokens derive the expression -/

theorem derives_number {n : Float} {f : Number.Fraction} (h : Number.shape n = .finite f) :
    Derives .term f.tokens (.literal (.number n)) := by
  have hsigned := Number.signed_double h
  unfold Number.Fraction.tokens
  generalize ({ f with negative := false } : Number.Fraction).double = d at hsigned ⊢
  cases hnegative : f.negative with
  | false =>
    rw [hnegative] at hsigned
    cases hsigned
    exact .number d
  | true =>
    rw [hnegative] at hsigned
    cases hsigned
    exact .negative d

theorem derives_literal {v : Value} (h : (Expr.literal v).isWritable = true) :
    Derives .term (v.tokens .empty) (.literal v) := by
  cases v with
  | null => exact .null
  | string s => exact .string s
  | bool b =>
    cases b with
    | false => exact .false
    | true => exact .true
  | number n =>
    simp only [isWritable, Number.isFinite] at h
    unfold Value.tokens
    cases hshape : Number.shape n with
    | finite f => exact derives_number hshape
    | nan | infinite negative => simp [hshape] at h
  | pool items => cases h
  | entity id => cases h

/-- The tokens of the expression derive it, and do so as a term if no operator is on top. -/
structure Derived (e : Expr) : Prop where
  whole : Derives .disjunction e.tokens e
  term : e.isCompound = false → Derives .term e.tokens e

theorem Derived.of_term {e : Expr} (h : Derives .term e.tokens e) : e.Derived :=
  ⟨h.loosen (Nat.zero_le _), fun _ => h⟩

theorem Derived.of_compound {e : Expr} (hcompound : e.isCompound = true)
    (h : Derives .disjunction e.tokens e) : e.Derived :=
  ⟨h, by simp [hcompound]⟩

theorem Derived.operand {e : Expr} (h : e.Derived) (l : Level) :
    Derives l (e.operandTokens e.tokens) e := by
  refine Derives.loosen ?_ l.rank_le_term
  unfold operandTokens
  split
  · exact .paren h.whole
  · rename_i hcompound
    exact h.term (by simpa using hcompound)

theorem Derived.join {l r : Expr} (hl : l.Derived) (hr : r.Derived) {t : Token}
    {f : Expr → Expr → Expr} (hjoins : ∃ level, Joins level t f) :
    Derives .disjunction (l.operandTokens l.tokens ++ t :: r.operandTokens r.tokens) (f l r) := by
  obtain ⟨level, hjoins⟩ := hjoins
  exact (Derives.join hjoins (hl.operand _) (hr.operand _)).loosen (Nat.zero_le _)

theorem joins_mark (op : BinaryOp) : ∃ l, Joins l (.mark op.mark) (.binary op) := by
  cases op <;> exact ⟨_, by constructor⟩

theorem joins_keyword (op : LogicOp) : ∃ l, Joins l (.keyword op.keyword) (.logic op) := by
  cases op <;> exact ⟨_, by constructor⟩

theorem derived {e : Expr} (h : e.isWritable = true) : e.Derived := by
  induction e with
  | literal v => exact .of_term (derives_literal h)
  | var name => exact .of_term (.var name)
  | binary op l r ihl ihr =>
    simp only [isWritable, Bool.and_eq_true] at h
    exact .of_compound rfl ((ihl h.1).join (ihr h.2) (joins_mark op))
  | logic op l r ihl ihr =>
    simp only [isWritable, Bool.and_eq_true] at h
    exact .of_compound rfl ((ihl h.1).join (ihr h.2) (joins_keyword op))
  | not e ih =>
    have hnot := Derives.not ((ih h).operand _)
    exact .of_compound rfl (hnot.loosen (Nat.zero_le _))
  | index pool e ih =>
    simp only [isWritable, Bool.and_eq_true] at h
    exact .of_term (.index pool (ih h.2).whole)
  | property target name => exact .of_term (.property target name)

/-! ## Reading -/

theorem parse_eq_ok {source : String} {e : Expr} :
    Expr.parse source = .ok e ↔
      ∃ ts, scan source = .ok ts ∧ Derives .disjunction (ts.map Spanned.token) e := by
  unfold Expr.parse
  rw [Parse.run_eq_ok]
  constructor
  · intro ⟨ts, rest, hscan, hread⟩
    exact ⟨ts, hscan, (Parse.wholeExpr_eq_ok.mp hread).2⟩
  · intro ⟨ts, hscan, hderives⟩
    exact ⟨ts, [], hscan, Parse.wholeExpr_eq_ok.mpr ⟨rfl, hderives⟩⟩

/-- **Expressions are read by the grammar.** A text is read as an expression exactly if it has
tokens that derive it, tokens derive one expression at most, and an expression that can be
written is read back from its text. -/
theorem parse_exact :
    (∀ (source : String) (e : Expr), Expr.parse source = .ok e ↔
      ∃ ts, scan source = .ok ts ∧ Derives .disjunction (ts.map Spanned.token) e) ∧
    (∀ (l : Level) (ts : List Token) (a b : Expr), Derives l ts a → Derives l ts b → a = b) ∧
    (∀ e : Expr, e.isWritable = true → Expr.parse e.text = .ok e) := by
  refine ⟨fun _ _ => parse_eq_ok, fun _ _ _ _ ha hb => ha.unique hb, ?_⟩
  intro e h
  have hscans := scansAs h .nil .nil
  rw [List.append_nil, List.append_nil] at hscans
  obtain ⟨ts, hscan, hts⟩ := hscans.scan
  exact parse_eq_ok.mpr ⟨ts, hscan, hts ▸ (derived h).whole⟩

/-- An expression with operators of every level, whose negative number stands behind a minus. -/
def alarm : Expr :=
  .logic .or (.not (.var "ready"))
    (.binary .le (.binary .sub (.property "hero" "hp") (.literal (.number (-2.5))))
      (.index "limits" (.binary .mul (.literal (.number 2)) (.var "level"))))

theorem parse_exact_alarm : alarm.isWritable = true ∧
    alarm.text = "(not ready) or ((hero.hp - -2.5) <= limits[2 * level])" ∧
    Expr.parse alarm.text = .ok alarm := by
  have hwritable : alarm.isWritable = true := by decide
  exact ⟨hwritable, by decide, parse_exact.2.2 alarm hwritable⟩

end Expr
end EntityScript
