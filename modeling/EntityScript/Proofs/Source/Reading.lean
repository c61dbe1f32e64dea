import EntityScript.Proofs.Source.Grammar
import EntityScript.Proofs.Source.Reader
import EntityScript.Source.Expr

/-! # Reading expressions by the grammar

The reader of each level takes from the front of the tokens an expression of that level:
what it takes derives what it yields (`Sound`), and what derives an expression is taken
as a whole if no token behind it carries it on (`exprWithin_complete`). A left-grouping chain
is read from the left while its derivation splits off the last operand, so the induction is
over the derivation with the state of the reader behind it: having read `e` at its level, it
goes on with `proceed e`. -/

namespace EntityScript.Source.Parse

open Grammar

/-! ## Levels of the reader -/

/-- The operators of a level. -/
def operator? : Level → Token → Option (Expr → Expr → Expr)
  | .disjunction => orOp?
  | .conjunction => andOp?
  | .comparison => comparisonOp?
  | .sum => sumOp?
  | .product => productOp?
  | .negation | .term => fun _ => none

/-- The reader of a level, where `inner` reads what is in brackets. -/
def reader (inner : Parse Expr) : Level → Parse Expr
  | .term => term inner
  | .product => chain productOp? (term inner)
  | .sum => chain sumOp? (chain productOp? (term inner))
  | .comparison => chain comparisonOp? (chain sumOp? (chain productOp? (term inner)))
  | .negation => negation (chain comparisonOp? (chain sumOp? (chain productOp? (term inner))))
  | .conjunction => chain andOp? (negation (chain comparisonOp? (chain sumOp?
      (chain productOp? (term inner)))))
  | .disjunction => exprWith inner

theorem operator?_eq_some_iff {l : Level} {t : Token} {f : Expr → Expr → Expr} :
    operator? l t = some f ↔ Joins l t f := by
  constructor
  · intro h
    cases l with
    | negation | term => cases h
    | disjunction | conjunction | comparison | sum | product =>
      simp only [operator?, orOp?, andOp?, comparisonOp?, sumOp?, productOp?] at h
      split at h <;> cases h <;> constructor
  · intro h
    cases h <;> rfl

theorem reader_chain (inner : Parse Expr) {l : Level} (hn : l ≠ .negation) (ht : l ≠ .term) :
    reader inner l = chain (operator? l) (reader inner l.operand) := by
  cases l with
  | negation => exact absurd rfl hn
  | term => exact absurd rfl ht
  | disjunction | conjunction | comparison | sum | product => rfl

/-! ## What is taken derives what is yielded -/

/-- What the reader takes derives what it yields. -/
def Sound (p : Parse Expr) (l : Level) : Prop :=
  ∀ ts e rest, p ts = .ok (e, rest) →
    ∃ taken, ts = taken ++ rest ∧ Derives l (taken.map Spanned.token) e

theorem Sound.length_le {p : Parse Expr} {l : Level} (hp : Sound p l) {ts rest : List Spanned}
    {e : Expr} (h : p ts = .ok (e, rest)) : rest.length ≤ ts.length := by
  obtain ⟨taken, rfl, _⟩ := hp ts e rest h
  simp

theorem chainRest_sound {p : Parse Expr} {l : Level} (hp : Sound p l.operand) (fuel : Nat)
    {left e : Expr} {us : List Token} {ts rest : List Spanned} (hleft : Derives l us left)
    (h : chainRest (operator? l) p fuel left ts = .ok (e, rest)) :
    ∃ taken, ts = taken ++ rest ∧ Derives l (us ++ taken.map Spanned.token) e := by
  induction fuel generalizing left us ts with
  | zero =>
    cases h
    exact ⟨[], rfl, by simpa using hleft⟩
  | succ fuel ih =>
    unfold chainRest at h
    split at h
    · cases h
      exact ⟨[], rfl, by simpa using hleft⟩
    · rename_i s ts
      split at h
      · cases h
        exact ⟨[], rfl, by simpa using hleft⟩
      · rename_i f hop
        obtain ⟨right, mid, hright, hrest⟩ := bind_eq_ok.mp h
        obtain ⟨taken, rfl, hderives⟩ := hp _ _ _ hright
        have hjoined := Derives.join (operator?_eq_some_iff.mp hop) hleft hderives
        obtain ⟨more, rfl, hall⟩ := ih hjoined hrest
        exact ⟨s :: taken ++ more, by simp, by simpa using hall⟩

theorem chain_sound {p : Parse Expr} {l : Level} (hl : l ≠ .term) (hp : Sound p l.operand) :
    Sound (chain (operator? l) p) l := by
  intro ts e rest h
  obtain ⟨left, mid, hleft, hrest⟩ := bind_eq_ok.mp h
  obtain ⟨taken, rfl, hderives⟩ := hp _ _ _ hleft
  obtain ⟨more, rfl, hall⟩ := chainRest_sound hp _ (.operand hl hderives) hrest
  exact ⟨taken ++ more, by simp, by simpa using hall⟩

theorem negation_sound {p : Parse Expr} (hp : Sound p .comparison) :
    Sound (negation p) .negation := by
  intro ts e rest h
  fun_induction negation p ts generalizing e with
  | case1 start stop ts ih =>
    obtain ⟨⟨e', rest'⟩, hinner, heq⟩ := map_eq_ok.mp h
    cases heq
    obtain ⟨taken, rfl, hderives⟩ := ih _ hinner
    exact ⟨_ :: taken, rfl, .not hderives⟩
  | case2 ts hts =>
    obtain ⟨taken, rfl, hderives⟩ := hp _ _ _ h
    exact ⟨taken, rfl, .operand (by simp) hderives⟩

theorem scalar?_sound {ts rest : List Spanned} {v : Value} (h : scalar? ts = some (v, rest)) :
    ∃ taken, ts = taken ++ rest ∧ Derives .term (taken.map Spanned.token) (.literal v) := by
  unfold scalar? at h
  split at h
  · cases h
    exact ⟨[_], rfl, .number _⟩
  · cases h
    exact ⟨[_, _], rfl, .negative _⟩
  · cases h
    exact ⟨[_], rfl, .string _⟩
  · cases h
    exact ⟨[_], rfl, .true⟩
  · cases h
    exact ⟨[_], rfl, .false⟩
  · cases h
    exact ⟨[_], rfl, .null⟩
  · cases h

/-- An expression in brackets, behind the opening one. -/
theorem enclosed_sound {inner : Parse Expr} (hinner : Sound inner .disjunction) {close : Mark}
    {f : Expr → Expr} {ts rest : List Spanned} {e : Expr}
    (h : (do let e ← inner; expect close; return f e : Parse Expr) ts = .ok (e, rest)) :
    ∃ e' taken, e = f e' ∧ ts = taken ++ rest ∧
      ∃ us, taken.map Spanned.token = us ++ [.mark close] ∧ Derives .disjunction us e' := by
  obtain ⟨e', mid, he', hrest⟩ := bind_eq_ok.mp h
  obtain ⟨_, mid', hclose, hret⟩ := bind_eq_ok.mp hrest
  obtain ⟨start, stop, rfl⟩ := expect_eq_ok.mp hclose
  cases hret
  obtain ⟨taken, rfl, hderives⟩ := hinner _ _ _ he'
  exact ⟨e', taken ++ [⟨.mark close, start, stop⟩], rfl, by simp, _, by simp, hderives⟩

theorem named_sound {inner : Parse Expr} (hinner : Sound inner .disjunction) {name : String}
    {start stop : Nat} {ts rest : List Spanned} {e : Expr}
    (h : named inner name ts = .ok (e, rest)) :
    ∃ taken, ⟨.ident name, start, stop⟩ :: ts = taken ++ rest ∧
      Derives .term (taken.map Spanned.token) e := by
  unfold named at h
  split at h
  · obtain ⟨e', taken, rfl, rfl, us, hus, hderives⟩ := enclosed_sound hinner h
    refine ⟨_ :: _ :: _ :: _ :: taken, rfl, ?_⟩
    rw [List.map_cons, List.map_cons, List.map_cons, List.map_cons, hus]
    exact .memberIndex _ _ hderives
  · obtain ⟨e', taken, rfl, rfl, us, hus, hderives⟩ := enclosed_sound hinner h
    refine ⟨_ :: _ :: taken, rfl, ?_⟩
    rw [List.map_cons, List.map_cons, hus]
    exact .index _ hderives
  · obtain ⟨⟨property, rest'⟩, hident, heq⟩ := map_eq_ok.mp h
    cases heq
    obtain ⟨_, _, rfl⟩ := ident_eq_ok.mp hident
    exact ⟨[_, _, _], rfl, .property _ _⟩
  · cases h
    exact ⟨[_], rfl, .var _⟩

theorem term_sound {inner : Parse Expr} (hinner : Sound inner .disjunction) :
    Sound (term inner) .term := by
  intro ts e rest h
  fun_induction term inner ts generalizing e with
  | case1 ts v rest' hscalar =>
    cases h
    exact scalar?_sound hscalar
  | case2 start stop ts hscalar ih =>
    obtain ⟨⟨e', rest'⟩, hterm, heq⟩ := map_eq_ok.mp h
    cases heq
    obtain ⟨taken, rfl, hderives⟩ := ih _ hterm
    refine ⟨_ :: taken, rfl, .minus ?_ hderives⟩
    intro n us hus
    obtain ⟨_, _, _, rfl, _⟩ := map_token_eq_cons.mp hus
    cases hscalar
  | case3 start stop ts hscalar =>
    obtain ⟨e', taken, rfl, rfl, us, hus, hderives⟩ := enclosed_sound (f := id) hinner h
    refine ⟨_ :: taken, rfl, ?_⟩
    rw [List.map_cons, hus]
    exact .paren hderives
  | case4 name start stop ts hscalar => exact named_sound hinner h
  | case5 ts hscalar => cases h

theorem reader_sound {inner : Parse Expr} (hinner : Sound inner .disjunction) (l : Level) :
    Sound (reader inner l) l := by
  have hproduct := chain_sound (l := .product) (by simp) (term_sound hinner)
  have hsum := chain_sound (l := .sum) (by simp) hproduct
  have hcomparison := chain_sound (l := .comparison) (by simp) hsum
  have hnegation := negation_sound hcomparison
  have hconjunction := chain_sound (l := .conjunction) (by simp) hnegation
  have hdisjunction := chain_sound (l := .disjunction) (by simp) hconjunction
  cases l with
  | term => exact term_sound hinner
  | product => exact hproduct
  | sum => exact hsum
  | comparison => exact hcomparison
  | negation => exact hnegation
  | conjunction => exact hconjunction
  | disjunction => exact hdisjunction

theorem exprWithin_sound (depth : Nat) : Sound (exprWithin depth) .disjunction := by
  induction depth with
  | zero =>
    intro ts e rest h
    cases h
  | succ depth ih => exact reader_sound ih .disjunction

/-! ## Going on behind an expression -/

/-- No token that comes next carries on an expression of level `l`. -/
def Stops (l : Level) (rest : List Spanned) : Prop :=
  ∀ s, rest.head? = some s → ¬ Continues l s.token

theorem Stops.nil (l : Level) : Stops l [] := by
  intro s hs
  cases hs

theorem Stops.cons {l : Level} {s : Spanned} (h : ¬ Continues l s.token) (rest : List Spanned) :
    Stops l (s :: rest) := by
  intro s' hs'
  cases hs'
  exact h

theorem Stops.operand {l : Level} {rest : List Spanned} (h : Stops l rest) :
    Stops l.operand rest :=
  fun s hs hc => h s hs hc.of_operand

section Chains

variable {op? : Token → Option (Expr → Expr → Expr)} {p : Parse Expr}

/-- The rest of a chain behind the operand `left`. -/
def chainOn (op? : Token → Option (Expr → Expr → Expr)) (p : Parse Expr) (left : Expr) :
    Parse Expr :=
  fuelled fun fuel => chainRest op? p fuel left

/-- As many steps as there are tokens, and one more, are enough. -/
theorem chainRest_fuel
    (hp : ∀ ts e rest, p ts = .ok (e, rest) → rest.length ≤ ts.length) {n m : Nat} {left : Expr}
    {ts : List Spanned} (hn : ts.length < n) (hm : ts.length < m) :
    chainRest op? p n left ts = chainRest op? p m left ts := by
  induction n generalizing m left ts with
  | zero => exact absurd hn (Nat.not_lt_zero _)
  | succ n ih =>
    obtain ⟨m, rfl⟩ : ∃ k, m = k + 1 := ⟨m - 1, by omega⟩
    cases ts with
    | nil => rfl
    | cons s ts =>
      simp only [chainRest]
      cases op? s.token with
      | none => rfl
      | some f =>
        cases hright : p ts with
        | error r => simp only [bind_error hright]
        | ok x =>
          have hle := hp _ _ _ hright
          simp only [List.length_cons] at hn hm
          simp only [bind_ok hright]
          exact ih (by omega) (by omega)

theorem chainOn_join (hp : ∀ ts e rest, p ts = .ok (e, rest) → rest.length ≤ ts.length)
    {f : Expr → Expr → Expr} {left right : Expr} {s : Spanned} {ts rest : List Spanned}
    (hop : op? s.token = some f) (hright : p ts = .ok (right, rest)) :
    chainOn op? p left (s :: ts) = chainOn op? p (f left right) rest := by
  have hle := hp _ _ _ hright
  show chainRest op? p _ left (s :: ts) = chainRest op? p _ (f left right) rest
  rw [List.length_cons, chainRest]
  simp only [hop, bind_ok hright]
  exact chainRest_fuel hp (by omega) (by omega)

theorem chainOn_stop {left : Expr} {ts : List Spanned}
    (h : ∀ s, ts.head? = some s → op? s.token = none) : chainOn op? p left ts = .ok (left, ts) := by
  cases ts with
  | nil => rfl
  | cons s ts =>
    show chainRest op? p _ left (s :: ts) = .ok (left, s :: ts)
    simp only [chainRest, h s rfl]

end Chains

/-- What the reader of a level does once it has read `e`. -/
def proceed (inner : Parse Expr) (l : Level) (e : Expr) : Parse Expr :=
  if l = .negation ∨ l = .term then pure e
  else chainOn (operator? l) (reader inner l.operand) e

theorem proceed_stop {inner : Parse Expr} {l : Level} {e : Expr} {rest : List Spanned}
    (h : Stops l rest) : proceed inner l e rest = .ok (e, rest) := by
  unfold proceed
  split
  · rfl
  · apply chainOn_stop
    intro s hs
    rw [Option.eq_none_iff_forall_not_mem]
    intro f hf
    exact h s hs (.inl ⟨l, f, Nat.le_refl _, operator?_eq_some_iff.mp hf⟩)

/-! ## What derives an expression is taken -/

/-- The reader takes every expression of less than `n` tokens that is not carried on. -/
def Complete (p : Parse Expr) (n : Nat) : Prop :=
  ∀ ss e rest, Derives .disjunction (ss.map Spanned.token) e → ss.length < n →
    Stops .disjunction rest → p (ss ++ rest) = .ok (e, rest)

theorem enclosed_complete {inner : Parse Expr} {n : Nat} (hinner : Complete inner n)
    {close : Mark} (hclose : ¬ Continues .disjunction (.mark close)) {us : List Token} {e : Expr}
    (h : Derives .disjunction us e) {ss : List Spanned}
    (hss : ss.map Spanned.token = us ++ [.mark close]) (hlength : ss.length ≤ n)
    (f : Expr → Expr) (rest : List Spanned) :
    (do let e ← inner; expect close; return f e : Parse Expr) (ss ++ rest) =
      .ok (f e, rest) := by
  obtain ⟨ss₁, ss₂, rfl, rfl, hss₂⟩ := List.map_eq_append_iff.mp hss
  obtain ⟨start, stop, rfl⟩ := map_token_eq_singleton.mp hss₂
  rw [List.length_append, List.length_singleton] at hlength
  have hread : inner (ss₁ ++ ⟨.mark close, start, stop⟩ :: rest) = .ok (e, _) :=
    hinner _ _ _ h (by omega) (.cons hclose rest)
  have hexpect : expect close (⟨.mark close, start, stop⟩ :: rest) = .ok ((), rest) :=
    expect_eq_ok.mpr ⟨start, stop, rfl⟩
  rw [List.append_assoc, List.singleton_append, bind_ok hread, bind_ok hexpect]
  rfl

/-- A minus before what is not a number is no sign. -/
theorem scalar?_minus {start stop : Nat} {ts : List Spanned}
    (h : ∀ n us, ts.map Spanned.token ≠ .number n :: us) :
    scalar? (⟨.mark .minus, start, stop⟩ :: ts) = none := by
  unfold scalar?
  split <;> rename_i heq
  · cases heq
  · cases heq
    exact absurd rfl (h _ _)
  · cases heq
  · cases heq
  · cases heq
  · cases heq
  · rfl

theorem negation_of_ne {p : Parse Expr} {ts : List Spanned}
    (h : ∀ s, ts.head? = some s → s.token ≠ .keyword .not) : negation p ts = p ts := by
  unfold negation
  split
  · exact absurd rfl (h _ rfl)
  · rfl

theorem named_var {inner : Parse Expr} {rest : List Spanned} (hrest : Stops .term rest)
    (name : String) : named inner name rest = .ok (.var name, rest) := by
  unfold named
  split
  · exact absurd (.inr (.inl rfl)) (hrest _ rfl)
  · exact absurd (.inr (.inr rfl)) (hrest _ rfl)
  · exact absurd (.inr (.inl rfl)) (hrest _ rfl)
  · rfl

theorem named_property {inner : Parse Expr} {rest : List Spanned} (hrest : Stops .term rest)
    (target name : String) (i j k l : Nat) :
    named inner target (⟨.mark .dot, i, j⟩ :: ⟨.ident name, k, l⟩ :: rest) =
      .ok (.property target name, rest) := by
  unfold named
  split <;> rename_i heq
  · cases heq
    exact absurd (.inr (.inr rfl)) (hrest _ rfl)
  · cases heq
  · cases heq
    rfl
  · exact absurd rfl (heq _ _ _)

theorem reader_complete {inner : Parse Expr} {n : Nat} (hsound : Sound inner .disjunction)
    (hinner : Complete inner n) {l : Level} {ts : List Token} {e : Expr} (h : Derives l ts e)
    {ss rest : List Spanned} (hss : ss.map Spanned.token = ts) (hlength : ss.length ≤ n)
    (hrest : Stops l.operand rest) : reader inner l (ss ++ rest) = proceed inner l e rest := by
  induction h generalizing ss rest with
  | @operand l ts e hl h ih =>
    have hread : reader inner l.operand (ss ++ rest) = .ok (e, rest) := by
      rw [ih hss hlength hrest.operand, proceed_stop hrest]
    by_cases hn : l = .negation
    · subst hn
      obtain ⟨t, us, rfl, ht⟩ := h.start
      obtain ⟨start, stop, ss', rfl, _⟩ := map_token_eq_cons.mp hss
      have hhead : ∀ s, (⟨t, start, stop⟩ :: ss' ++ rest).head? = some s →
          s.token ≠ .keyword .not := by
        intro s hs
        cases hs
        exact ht (by decide)
      exact (negation_of_ne hhead).trans hread
    · rw [reader_chain inner hn hl, chain, bind_ok hread, proceed, if_neg (by simp [hn, hl])]
      rfl
  | @join l t f ts us a b hjoins h₁ h₂ ih₁ ih₂ =>
    obtain ⟨ss₁, ss₂, rfl, hss₁, hss₂⟩ := List.map_eq_append_iff.mp hss
    obtain ⟨start, stop, ss₃, rfl, hss₃⟩ := map_token_eq_cons.mp hss₂
    simp only [List.length_append, List.length_cons] at hlength
    have hright : reader inner l.operand (ss₃ ++ rest) = .ok (b, rest) := by
      rw [ih₂ hss₃ (by omega) hrest.operand, proceed_stop hrest]
    have hchain : ¬ (l = .negation ∨ l = .term) := by
      cases hjoins <;> simp
    have hleft : reader inner l (ss₁ ++ ⟨t, start, stop⟩ :: (ss₃ ++ rest)) = _ :=
      ih₁ hss₁ (by omega) (.cons hjoins.not_continues_operand _)
    rw [List.append_assoc, List.cons_append, hleft, proceed, proceed, if_neg hchain,
      if_neg hchain]
    exact chainOn_join (fun _ _ _ => (reader_sound hsound _).length_le)
      (operator?_eq_some_iff.mpr hjoins) hright
  | not h ih =>
    obtain ⟨_, _, ss', rfl, hss'⟩ := map_token_eq_cons.mp hss
    have hinner : negation _ (ss' ++ rest) = _ := ih hss' (Nat.le_of_succ_le hlength) hrest
    show (negation _ (ss' ++ rest)).map _ = _
    rw [hinner]
    rfl
  | number n =>
    obtain ⟨_, _, rfl⟩ := map_token_eq_singleton.mp hss
    rfl
  | negative n =>
    obtain ⟨_, _, _, rfl, hss₁⟩ := map_token_eq_cons.mp hss
    obtain ⟨_, _, rfl⟩ := map_token_eq_singleton.mp hss₁
    rfl
  | minus hn h ih =>
    obtain ⟨start, stop, ss', rfl, hss'⟩ := map_token_eq_cons.mp hss
    have hterm : term inner (ss' ++ rest) = .ok (_, rest) :=
      ih hss' (Nat.le_of_succ_le hlength) hrest
    have hsign : scalar? (⟨.mark .minus, start, stop⟩ :: (ss' ++ rest)) = none := by
      obtain ⟨t, us, rfl, _⟩ := h.start
      apply scalar?_minus
      intro n us' hus'
      rw [List.map_append, hss', List.cons_append] at hus'
      cases hus'
      exact hn _ _ rfl
    show term inner (⟨.mark .minus, start, stop⟩ :: (ss' ++ rest)) = _
    unfold term
    simp only [hsign, hterm]
    rfl
  | string s =>
    obtain ⟨_, _, rfl⟩ := map_token_eq_singleton.mp hss
    rfl
  | true | false | null =>
    obtain ⟨_, _, rfl⟩ := map_token_eq_singleton.mp hss
    rfl
  | paren h ih =>
    obtain ⟨_, _, ss', rfl, hss'⟩ := map_token_eq_cons.mp hss
    exact enclosed_complete hinner (not_continues_rightParen _) h hss' (Nat.le_of_succ_le hlength)
      id rest
  | var name =>
    obtain ⟨_, _, rfl⟩ := map_token_eq_singleton.mp hss
    exact named_var hrest name
  | property target name =>
    obtain ⟨_, _, _, rfl, hss₁⟩ := map_token_eq_cons.mp hss
    obtain ⟨_, _, _, rfl, hss₂⟩ := map_token_eq_cons.mp hss₁
    obtain ⟨_, _, rfl⟩ := map_token_eq_singleton.mp hss₂
    exact named_property hrest target name _ _ _ _
  | index pool h ih =>
    obtain ⟨_, _, _, rfl, hss₁⟩ := map_token_eq_cons.mp hss
    obtain ⟨_, _, ss', rfl, hss'⟩ := map_token_eq_cons.mp hss₁
    simp only [List.length_cons] at hlength
    exact enclosed_complete hinner (not_continues_rightBracket _) h hss' (by omega) (.index pool)
      rest
  | memberIndex pool member h ih =>
    obtain ⟨_, _, _, rfl, hss₁⟩ := map_token_eq_cons.mp hss
    obtain ⟨_, _, _, rfl, hss₂⟩ := map_token_eq_cons.mp hss₁
    obtain ⟨_, _, _, rfl, hss₃⟩ := map_token_eq_cons.mp hss₂
    obtain ⟨_, _, ss', rfl, hss'⟩ := map_token_eq_cons.mp hss₃
    simp only [List.length_cons] at hlength
    exact enclosed_complete hinner (not_continues_rightBracket _) h hss' (by omega) (.index pool)
      rest

theorem exprWithin_complete (depth : Nat) : Complete (exprWithin depth) depth := by
  induction depth with
  | zero => exact fun ss e rest _ hlength => absurd hlength (Nat.not_lt_zero _)
  | succ depth ih =>
    intro ss e rest h hlength hrest
    have hread := reader_complete (exprWithin_sound depth) ih h rfl (Nat.le_of_lt_succ hlength)
      hrest.operand
    exact hread.trans (proceed_stop hrest)

/-! ## Whole lists of tokens -/

/-- An expression and nothing behind it: the tokens derive it. -/
theorem wholeExpr_eq_ok {ts rest : List Spanned} {e : Expr} :
    wholeExpr ts = .ok (e, rest) ↔
      rest = [] ∧ Derives .disjunction (ts.map Spanned.token) e := by
  constructor
  · intro h
    obtain ⟨e', mid, hexpr, hend⟩ := bind_eq_ok.mp h
    obtain ⟨taken, rfl, hderives⟩ := exprWithin_sound _ _ _ _ hexpr
    cases mid with
    | nil =>
      cases hend
      exact ⟨rfl, by simpa using hderives⟩
    | cons s mid => cases hend
  · rintro ⟨rfl, h⟩
    have hexpr : expr ts = .ok (e, []) := by
      have hread := exprWithin_complete (ts.length + 1) ts e [] h (Nat.lt_succ_self _) (.nil _)
      rwa [List.append_nil] at hread
    rw [wholeExpr, bind_ok hexpr]
    rfl

end EntityScript.Source.Parse

namespace EntityScript.Source.Grammar

/-- At each level, tokens stand for one expression at most. -/
theorem Derives.unique {l : Level} {ts : List Token} {a b : Expr} (ha : Derives l ts a)
    (hb : Derives l ts b) : a = b := by
  let ss : List Spanned := ts.map fun t => ⟨t, 0, 0⟩
  have hss : ss.map Spanned.token = ts := by simp [ss, Function.comp_def]
  have hread : ∀ {e}, Derives l ts e →
      Parse.reader (Parse.exprWithin ss.length) l ss = .ok (e, []) := by
    intro e he
    have hread := Parse.reader_complete (Parse.exprWithin_sound ss.length)
      (Parse.exprWithin_complete ss.length) he hss (Nat.le_refl _) (.nil l.operand)
    rwa [List.append_nil, Parse.proceed_stop (.nil _)] at hread
  have h := (hread ha).symm.trans (hread hb)
  cases h
  rfl

end EntityScript.Source.Grammar
