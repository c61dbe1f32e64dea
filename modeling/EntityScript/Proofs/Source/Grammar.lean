import EntityScript.Expr
import EntityScript.Source.Token

/-! # The grammar of expressions

Which expression a list of tokens stands for (`Derives`), level by level from disjunctions
down to terms. The operators of a level join an expression of the same level on the left
to an operand on the right, so they group from the left. A minus before a number is its
sign; before any other term it takes the term from zero.

What an expression can start with (`Derives.start`) and which tokens can carry one on
(`Continues`) are all that a reader of this grammar has to look at. -/

namespace EntityScript.Source.Grammar

/-! ## Levels -/

/-- The levels of an expression, the loosest first. -/
inductive Level where
  | disjunction
  | conjunction
  | negation
  | comparison
  | sum
  | product
  | term
  deriving DecidableEq

namespace Level

/-- The level of the operands. -/
def operand : Level → Level
  | .disjunction => .conjunction
  | .conjunction => .negation
  | .negation => .comparison
  | .comparison => .sum
  | .sum => .product
  | .product => .term
  | .term => .term

/-- How tightly a level binds. -/
def rank : Level → Nat
  | .disjunction => 0
  | .conjunction => 1
  | .negation => 2
  | .comparison => 3
  | .sum => 4
  | .product => 5
  | .term => 6

theorem rank_le_operand (l : Level) : l.rank ≤ l.operand.rank := by cases l <;> decide

theorem rank_le_term (l : Level) : l.rank ≤ Level.term.rank := by cases l <;> decide

theorem rank_operand {l : Level} (h : l ≠ .term) : l.operand.rank = l.rank + 1 := by
  cases l with
  | term => exact absurd rfl h
  | disjunction | conjunction | negation | comparison | sum | product => rfl

theorem eq_of_rank_eq {l l' : Level} (h : l.rank = l'.rank) : l = l' := by
  cases l <;> cases l' <;> first | rfl | cases h

end Level

/-- At level `l` the token `t` joins the operands `a` and `b` to `f a b`. -/
inductive Joins : Level → Token → (Expr → Expr → Expr) → Prop
  | or : Joins .disjunction (.keyword .or) (.logic .or)
  | and : Joins .conjunction (.keyword .and) (.logic .and)
  | eq : Joins .comparison (.mark .equalTo) (.binary .eq)
  | ne : Joins .comparison (.mark .notEqualTo) (.binary .ne)
  | lt : Joins .comparison (.mark .less) (.binary .lt)
  | gt : Joins .comparison (.mark .greater) (.binary .gt)
  | le : Joins .comparison (.mark .atMost) (.binary .le)
  | ge : Joins .comparison (.mark .atLeast) (.binary .ge)
  | add : Joins .sum (.mark .plus) (.binary .add)
  | sub : Joins .sum (.mark .minus) (.binary .sub)
  | mul : Joins .product (.mark .star) (.binary .mul)
  | div : Joins .product (.mark .slash) (.binary .div)
  | mod : Joins .product (.mark .percent) (.binary .mod)

/-! ## Derivations -/

/-- The tokens stand for the expression, at the given level. -/
inductive Derives : Level → List Token → Expr → Prop
  | operand {l : Level} {ts : List Token} {e : Expr} : l ≠ .term → Derives l.operand ts e →
    Derives l ts e
  | join {l : Level} {t : Token} {f : Expr → Expr → Expr} {ts us : List Token} {a b : Expr} :
    Joins l t f → Derives l ts a → Derives l.operand us b → Derives l (ts ++ t :: us) (f a b)
  | not {ts : List Token} {e : Expr} : Derives .negation ts e →
    Derives .negation (.keyword .not :: ts) (.not e)
  | number (n : Float) : Derives .term [.number n] (.literal (.number n))
  | negative (n : Float) : Derives .term [.mark .minus, .number n] (.literal (.number (-n)))
  | minus {ts : List Token} {e : Expr} : (∀ n us, ts ≠ .number n :: us) → Derives .term ts e →
    Derives .term (.mark .minus :: ts) (.binary .sub (.literal (.number 0.0)) e)
  | string (s : String) : Derives .term [.string s] (.literal (.string s))
  | true : Derives .term [.keyword .trueLiteral] (.literal (.bool true))
  | false : Derives .term [.keyword .falseLiteral] (.literal (.bool false))
  | null : Derives .term [.keyword .nullLiteral] (.literal .null)
  | paren {ts : List Token} {e : Expr} : Derives .disjunction ts e →
    Derives .term (.mark .leftParen :: ts ++ [.mark .rightParen]) e
  | var (name : String) : Derives .term [.ident name] (.var name)
  | property (target name : String) :
    Derives .term [.ident target, .mark .dot, .ident name] (.property target name)
  | index (pool : String) {ts : List Token} {e : Expr} : Derives .disjunction ts e →
    Derives .term (.ident pool :: .mark .leftBracket :: ts ++ [.mark .rightBracket])
      (.index pool e)
  | memberIndex (pool member : String) {ts : List Token} {e : Expr} : Derives .disjunction ts e →
    Derives .term (.ident pool :: .mark .dot :: .ident member :: .mark .leftBracket :: ts
      ++ [.mark .rightBracket]) (.index pool e)

/-- What is derived at a level is derived at all looser ones. -/
theorem Derives.loosen {l l' : Level} {ts : List Token} {e : Expr} (h : Derives l' ts e)
    (hrank : l.rank ≤ l'.rank) : Derives l ts e := by
  by_cases heq : l.rank = l'.rank
  · exact Level.eq_of_rank_eq heq ▸ h
  · have hterm : l ≠ .term := by
      rintro rfl
      exact heq (Nat.le_antisymm hrank l'.rank_le_term)
    have hnext : l.operand.rank ≤ l'.rank := by
      rw [Level.rank_operand hterm]
      omega
    exact .operand hterm (h.loosen hnext)
termination_by l'.rank - l.rank
decreasing_by
  rw [Level.rank_operand hterm]
  omega

/-- An expression has a first token, and below the negations that is no negation. -/
theorem Derives.start {l : Level} {ts : List Token} {e : Expr} (h : Derives l ts e) :
    ∃ t us, ts = t :: us ∧ (Level.negation.rank < l.rank → t ≠ .keyword .not) := by
  induction h with
  | @operand l ts e _ _ ih =>
    obtain ⟨t, us, hts, ht⟩ := ih
    exact ⟨t, us, hts, fun hl => ht (Nat.lt_of_lt_of_le hl l.rank_le_operand)⟩
  | join _ _ _ ihl _ =>
    obtain ⟨t, us, rfl, ht⟩ := ihl
    exact ⟨t, _, rfl, ht⟩
  | not _ _ => exact ⟨_, _, rfl, fun hl => absurd hl (by decide)⟩
  | number | negative | minus | string | true | false | null | paren | var | property | index |
    memberIndex => exact ⟨_, _, rfl, fun _ => by simp⟩

/-! ## What carries an expression on -/

/-- Behind an expression of level `l` the token would be read as part of it. -/
def Continues (l : Level) (t : Token) : Prop :=
  (∃ l' f, l.rank ≤ l'.rank ∧ Joins l' t f) ∨ t = .mark .dot ∨ t = .mark .leftBracket

theorem Continues.of_operand {l : Level} {t : Token} (h : Continues l.operand t) :
    Continues l t := by
  obtain ⟨l', f, hrank, hjoins⟩ | h := h
  · exact .inl ⟨l', f, Nat.le_trans l.rank_le_operand hrank, hjoins⟩
  · exact .inr h

theorem Joins.level_unique {l l' : Level} {t : Token} {f f' : Expr → Expr → Expr}
    (h : Joins l t f) (h' : Joins l' t f') : l = l' := by
  cases h <;> cases h' <;> rfl

/-- An operator ends its left side, as far as tighter operators are concerned. -/
theorem Joins.not_continues_operand {l : Level} {t : Token} {f : Expr → Expr → Expr}
    (h : Joins l t f) : ¬ Continues l.operand t := by
  rintro (⟨l', f', hrank, h'⟩ | ht | ht)
  · obtain rfl := h.level_unique h'
    cases h <;> exact absurd hrank (by decide)
  · subst ht
    cases h
  · subst ht
    cases h

theorem not_continues_rightParen (l : Level) : ¬ Continues l (.mark .rightParen) := by
  rintro (⟨l', f, _, h⟩ | h | h)
  · cases h
  · cases h
  · cases h

theorem not_continues_rightBracket (l : Level) : ¬ Continues l (.mark .rightBracket) := by
  rintro (⟨l', f, _, h⟩ | h | h)
  · cases h
  · cases h
  · cases h

end EntityScript.Source.Grammar
