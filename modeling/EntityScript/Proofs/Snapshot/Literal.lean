import EntityScript.Proofs.Source.Reader
import EntityScript.Proofs.Source.Scanning

/-! # Literals of values

The literal of a value scans to its tokens (`Value.scans_value`), and from these the reader of
literals takes what the literal denotes (`literal_tokens`): the value itself, but for
references and for numbers that are not finite (`Value.asWritten`). Writing that again gives
the same literal, in any table (`Value.value_asWritten`). -/

namespace EntityScript

open Source

/-! ## Tokens of a literal -/

/-- The tokens of a finite number: its magnitude, behind a minus if it is negative. -/
def Number.Fraction.tokens (f : Number.Fraction) : List Token :=
  (if f.negative then [.mark .minus] else []) ++ [.number { f with negative := false }.double]

namespace Value

mutual

/-- The tokens of a value as a literal. -/
def tokens (t : Table) : Value → List Token
  | .null => [.keyword .nullLiteral]
  | .number n =>
    match Number.shape n with
    | .finite f => f.tokens
    | _ => [.keyword .nullLiteral]
  | .bool b => [.keyword (if b then .trueLiteral else .falseLiteral)]
  | .string s => [.string s]
  | .pool items =>
    .keyword .pool :: .mark .leftBracket :: itemTokens t items ++ [.mark .rightBracket]
  | .entity id =>
    match t.get? id with
    | some e => [.string e.name]
    | none => [.keyword .nullLiteral]

/-- The tokens of the items of a pool, divided by commas. -/
def itemTokens (t : Table) : List Value → List Token
  | [] => []
  | [v] => tokens t v
  | v :: w :: vs => tokens t v ++ .mark .comma :: itemTokens t (w :: vs)

end

/-! ## Scanning a literal -/

theorem scans_number {n : Float} {f : Number.Fraction} (h : Number.shape n = .finite f)
    {rest : List Char} {ts : List Token} (hends : Delimited rest) (hrest : Scans rest ts) :
    Scans ((Number.text n).toList ++ rest) (f.tokens ++ ts) := by
  obtain ⟨hnumeral, hread⟩ := Number.read?_magnitudeText h
  have hscans : Scans ((Number.magnitudeText f).toList ++ rest) (.number _ :: ts) :=
    hrest.number hnumeral (by rw [String.ofList_toList]; exact hread) hends.endsWord hends.noPoint
  have htext : Number.text n = (if f.negative then "-" else "") ++ Number.magnitudeText f := by
    rw [Number.text, h]
  rw [htext, String.toList_append, List.append_assoc, Number.Fraction.tokens, List.append_assoc]
  cases f.negative with
  | false => exact hscans
  | true =>
    -- A digit behind the minus keeps it from being part of a longer mark.
    have hmark : EndsMark ((Number.magnitudeText f).toList ++ rest) := by
      obtain ⟨c, cs, hcs, hdigit⟩ := hnumeral.start
      have hnot : ∀ d ∈ ['=', '>', '/', '*'], d.isDigit = false := by simp
      rw [hcs]
      rintro d hd ⟨⟩
      rw [hnot _ hd] at hdigit
      cases hdigit
    exact hscans.mark .minus (fun _ => hmark)

mutual

theorem scans_value (t : Table) (v : Value) {rest : List Char} {ts : List Token}
    (hends : Delimited rest) (hrest : Scans rest ts) :
    Scans ((Snapshot.value t v).toList ++ rest) (v.tokens t ++ ts) := by
  have hnull : Scans ("null".toList ++ rest) (.keyword .nullLiteral :: ts) :=
    hrest.keyword .nullLiteral hends.endsWord
  cases v with
  | null => exact hnull
  | number n =>
    unfold Snapshot.value tokens Number.isFinite
    cases hshape : Number.shape n with
    | finite f => exact scans_number hshape hends hrest
    | nan => exact hnull
    | infinite negative => exact hnull
  | bool b =>
    cases b with
    | false => exact hrest.keyword .falseLiteral hends.endsWord
    | true => exact hrest.keyword .trueLiteral hends.endsWord
  | string s => exact hrest.string s
  | entity id =>
    unfold Snapshot.value tokens
    cases t.get? id with
    | some e => exact hrest.string e.name
    | none => exact hnull
  | pool items =>
    have hitems := scans_values t items hrest
    have hbracket := hitems.plainMark .leftBracket rfl
    have hpool := hbracket.keyword .pool (.cons (c := '[') rfl _)
    unfold Snapshot.value tokens
    simpa [Keyword.text, Mark.text] using hpool

theorem scans_values (t : Table) (vs : List Value) {rest : List Char} {ts : List Token}
    (hrest : Scans rest ts) :
    Scans ((", ".intercalate (Snapshot.values t vs)).toList ++ ']' :: rest)
      (itemTokens t vs ++ .mark .rightBracket :: ts) := by
  have hclose : Scans (']' :: rest) (.mark .rightBracket :: ts) :=
    hrest.plainMark .rightBracket rfl
  match vs with
  | [] => exact hclose
  | [v] =>
    have hv := scans_value t v (.cons (by decide) rest) hclose
    unfold Snapshot.values
    rw [Snapshot.values, String.intercalate_singleton]
    exact hv
  | v :: w :: vs =>
    have hvs := scans_values t (w :: vs) hrest
    have hcomma := (Scans.gap (c := ' ') rfl hvs).plainMark .comma rfl
    have hv := scans_value t v (.cons (by decide) _) hcomma
    have htext : (", ".intercalate (Snapshot.values t (v :: w :: vs))).toList =
        (Snapshot.value t v).toList ++ ',' :: ' ' ::
          (", ".intercalate (Snapshot.values t (w :: vs))).toList := by
      simp [Snapshot.values, String.intercalate_cons_cons]
    rw [htext, List.append_assoc, itemTokens, List.append_assoc]
    exact hv

end

/-! ## Reading a literal -/

mutual

/-- What the literal of a value denotes: the value itself, except that a reference is left as
the name of its entity, and what has no literal as null. -/
def asWritten (t : Table) : Value → Value
  | .null => .null
  | .number n => if Number.isFinite n then .number n else .null
  | .bool b => .bool b
  | .string s => .string s
  | .pool items => .pool (allAsWritten t items)
  | .entity id =>
    match t.get? id with
    | some e => .string e.name
    | none => .null

/-- What the literals of some values denote. -/
def allAsWritten (t : Table) : List Value → List Value
  | [] => []
  | v :: vs => asWritten t v :: allAsWritten t vs

end

mutual

theorem value_asWritten (t t' : Table) (v : Value) :
    Snapshot.value t' (v.asWritten t) = Snapshot.value t v := by
  cases v with
  | null | bool b | string s => simp only [asWritten, Snapshot.value]
  | number n =>
    simp only [asWritten]
    split
    · rfl
    · rename_i hfinite
      simp only [Snapshot.value, hfinite]
      rfl
  | entity id =>
    simp only [asWritten]
    split
    · rename_i e he
      simp only [Snapshot.value, he]
    · rename_i hnone
      simp only [Snapshot.value, hnone]
  | pool items => simp only [asWritten, Snapshot.value, values_allAsWritten t t' items]

theorem values_allAsWritten (t t' : Table) (vs : List Value) :
    Snapshot.values t' (allAsWritten t vs) = Snapshot.values t vs := by
  cases vs with
  | nil => rfl
  | cons v vs =>
    simp only [allAsWritten, Snapshot.values, value_asWritten t t' v, values_allAsWritten t t' vs]

end

end Value

namespace Source.Parse

theorem scalar?_number {n : Float} {f : Number.Fraction} (h : Number.shape n = .finite f)
    {ss : List Spanned} (hss : ss.map Spanned.token = f.tokens) (rest : List Spanned) :
    scalar? (ss ++ rest) = some (.number n, rest) := by
  have hsigned := Number.signed_double h
  unfold Number.Fraction.tokens at hss
  cases hnegative : f.negative with
  | false =>
    rw [hnegative] at hss hsigned
    obtain ⟨_, _, rfl⟩ := map_token_eq_singleton.mp hss
    exact congrArg (fun x => some (Value.number x, rest)) hsigned
  | true =>
    rw [hnegative] at hss hsigned
    obtain ⟨_, _, _, rfl, hss'⟩ := map_token_eq_cons.mp hss
    obtain ⟨_, _, rfl⟩ := map_token_eq_singleton.mp hss'
    exact congrArg (fun x => some (Value.number x, rest)) hsigned

variable (t : Table)

/-- The literal of a value that is no pool is a scalar. -/
theorem scalar?_tokens {v : Value} (hv : ∀ items, v ≠ .pool items) {ss : List Spanned}
    (hss : ss.map Spanned.token = v.tokens t) (rest : List Spanned) :
    scalar? (ss ++ rest) = some (v.asWritten t, rest) := by
  cases v with
  | null =>
    obtain ⟨_, _, rfl⟩ := map_token_eq_singleton.mp hss
    rfl
  | number n =>
    unfold Value.tokens at hss
    unfold Value.asWritten Number.isFinite
    cases hshape : Number.shape n with
    | finite f =>
      rw [hshape] at hss
      exact scalar?_number hshape hss rest
    | nan =>
      rw [hshape] at hss
      obtain ⟨_, _, rfl⟩ := map_token_eq_singleton.mp hss
      rfl
    | infinite negative =>
      rw [hshape] at hss
      obtain ⟨_, _, rfl⟩ := map_token_eq_singleton.mp hss
      rfl
  | bool b =>
    obtain ⟨_, _, rfl⟩ := map_token_eq_singleton.mp hss
    cases b <;> rfl
  | string s =>
    obtain ⟨_, _, rfl⟩ := map_token_eq_singleton.mp hss
    rfl
  | entity id =>
    unfold Value.tokens at hss
    unfold Value.asWritten
    cases hget : t.get? id with
    | some e =>
      rw [hget] at hss
      obtain ⟨_, _, rfl⟩ := map_token_eq_singleton.mp hss
      rfl
    | none =>
      rw [hget] at hss
      obtain ⟨_, _, rfl⟩ := map_token_eq_singleton.mp hss
      rfl
  | pool items => exact absurd rfl (hv items)

/-- No literal starts with the mark that closes a pool. -/
theorem tokens_start (v : Value) : ∃ k ks, v.tokens t = k :: ks ∧ k ≠ .mark .rightBracket := by
  cases v with
  | null => exact ⟨_, _, rfl, by simp⟩
  | number n =>
    unfold Value.tokens
    split
    · rename_i f _
      unfold Number.Fraction.tokens
      cases f.negative with
      | false => exact ⟨_, _, rfl, by simp⟩
      | true => exact ⟨_, _, rfl, by simp⟩
    · exact ⟨_, _, rfl, by simp⟩
  | bool b => exact ⟨_, _, rfl, by simp⟩
  | string s => exact ⟨_, _, rfl, by simp⟩
  | pool items => exact ⟨_, _, rfl, by simp⟩
  | entity id =>
    unfold Value.tokens
    split
    · exact ⟨_, _, rfl, by simp⟩
    · exact ⟨_, _, rfl, by simp⟩

theorem itemTokens_start (v : Value) (vs : List Value) :
    ∃ k ks, Value.itemTokens t (v :: vs) = k :: ks ∧ k ≠ .mark .rightBracket := by
  obtain ⟨k, ks, hk, hne⟩ := tokens_start t v
  cases vs with
  | nil => exact ⟨k, ks, hk, hne⟩
  | cons w vs => exact ⟨k, _, by rw [Value.itemTokens, hk]; rfl, hne⟩

/-- The reader takes the literals of fewer than `n` tokens. -/
def TakesLiterals (p : Parse Value) (n : Nat) : Prop :=
  ∀ (v : Value) (ss rest : List Spanned), ss.map Spanned.token = v.tokens t → ss.length < n →
    p (ss ++ rest) = .ok (v.asWritten t, rest)

variable {t}

theorem itemsThrough_tokens {p : Parse Value} {n : Nat} (hp : TakesLiterals t p n)
    {vs : List Value} (hne : vs ≠ []) {ss : List Spanned}
    (hss : ss.map Spanned.token = Value.itemTokens t vs ++ [.mark .rightBracket])
    (hlength : ss.length ≤ n) (fuel : Nat) (hfuel : ss.length ≤ fuel) (rest : List Spanned) :
    itemsThrough p .rightBracket fuel (ss ++ rest) = .ok (Value.allAsWritten t vs, rest) := by
  induction vs generalizing ss fuel with
  | nil => exact absurd rfl hne
  | cons v vs ih =>
    cases vs with
    | nil =>
      obtain ⟨ss₁, ss₂, rfl, hss₁, hss₂⟩ := List.map_eq_append_iff.mp hss
      obtain ⟨i, j, rfl⟩ := map_token_eq_singleton.mp hss₂
      rw [List.length_append, List.length_singleton] at hlength hfuel
      obtain ⟨fuel, rfl⟩ : ∃ k, fuel = k + 1 := ⟨fuel - 1, by omega⟩
      have hitem := hp v ss₁ (⟨.mark .rightBracket, i, j⟩ :: rest) hss₁ (by omega)
      rw [List.append_assoc, List.singleton_append, itemsThrough, bind_ok hitem,
        bind_ok (eat_self rest)]
      rfl
    | cons w vs =>
      rw [Value.itemTokens, List.append_assoc] at hss
      obtain ⟨ss₁, ss₂, rfl, hss₁, hss₂⟩ := List.map_eq_append_iff.mp hss
      obtain ⟨i, j, ss₃, rfl, hss₃⟩ := map_token_eq_cons.mp hss₂
      rw [List.length_append, List.length_cons] at hlength hfuel
      obtain ⟨fuel, rfl⟩ : ∃ k, fuel = k + 1 := ⟨fuel - 1, by omega⟩
      have hitem := hp v ss₁ (⟨.mark .comma, i, j⟩ :: (ss₃ ++ rest)) hss₁ (by omega)
      have hnot : eat .rightBracket (⟨.mark .comma, i, j⟩ :: (ss₃ ++ rest)) = .ok (false, _) :=
        eat_of_ne (by simp) _
      have hcomma : expect .comma (⟨.mark .comma, i, j⟩ :: (ss₃ ++ rest)) = .ok ((), ss₃ ++ rest) :=
        expect_eq_ok.mpr ⟨i, j, rfl⟩
      have hitems := ih (by simp) hss₃ (by omega) fuel (by omega)
      rw [List.append_assoc, List.cons_append, itemsThrough, bind_ok hitem, bind_ok hnot]
      simp only [Bool.false_eq_true, if_false]
      rw [bind_ok hcomma, bind_ok hitems]
      rfl

theorem listThrough_tokens {p : Parse Value} {n : Nat} (hp : TakesLiterals t p n)
    {vs : List Value} {ss : List Spanned}
    (hss : ss.map Spanned.token = Value.itemTokens t vs ++ [.mark .rightBracket])
    (hlength : ss.length ≤ n) (rest : List Spanned) :
    listThrough p .rightBracket (ss ++ rest) = .ok (Value.allAsWritten t vs, rest) := by
  cases vs with
  | nil =>
    obtain ⟨i, j, rfl⟩ := map_token_eq_singleton.mp hss
    rw [listThrough, List.singleton_append, bind_ok (eat_self rest)]
    rfl
  | cons v vs =>
    have hitems := itemsThrough_tokens hp (List.cons_ne_nil v vs) hss hlength
      ((ss ++ rest).length + 1) (by rw [List.length_append]; omega) rest
    obtain ⟨k, ks, hstart, hk⟩ := itemTokens_start t v vs
    rw [hstart] at hss
    obtain ⟨i, j, ss', rfl, _⟩ := map_token_eq_cons.mp hss
    have hnot : eat .rightBracket (⟨k, i, j⟩ :: (ss' ++ rest)) = .ok (false, _) := eat_of_ne hk _
    rw [listThrough, List.cons_append, bind_ok hnot]
    exact hitems

theorem literalWithin_tokens (depth : Nat) : TakesLiterals t (literalWithin depth) depth := by
  induction depth with
  | zero =>
    intro v ss rest _ hlength
    exact absurd hlength (Nat.not_lt_zero _)
  | succ depth ih =>
    intro v ss rest hss hlength
    show literalWith (literalWithin depth) (ss ++ rest) = _
    by_cases hpool : ∃ items, v = .pool items
    · obtain ⟨items, rfl⟩ := hpool
      rw [Value.tokens] at hss
      obtain ⟨i, j, ss₁, rfl, hss₁⟩ := map_token_eq_cons.mp hss
      obtain ⟨k, l, ss₂, rfl, hss₂⟩ := map_token_eq_cons.mp hss₁
      simp only [List.length_cons] at hlength
      have hbracket : expect .leftBracket (⟨.mark .leftBracket, k, l⟩ :: (ss₂ ++ rest)) =
          .ok ((), ss₂ ++ rest) := expect_eq_ok.mpr ⟨k, l, rfl⟩
      have hitems := listThrough_tokens ih hss₂ (by omega) rest
      show (do
        expect .leftBracket
        return .pool (← listThrough (literalWithin depth) .rightBracket) : Parse Value)
          (⟨.mark .leftBracket, k, l⟩ :: (ss₂ ++ rest)) = _
      rw [bind_ok hbracket, bind_ok hitems]
      rfl
    · have hscalar := scalar?_tokens t (fun items h => hpool ⟨items, h⟩) hss rest
      unfold literalWith
      rw [hscalar]

theorem literal_tokens {v : Value} {ss : List Spanned} (hss : ss.map Spanned.token = v.tokens t)
    (rest : List Spanned) : literal (ss ++ rest) = .ok (v.asWritten t, rest) :=
  literalWithin_tokens _ v ss rest hss (by rw [List.length_append]; omega)

end Source.Parse
end EntityScript
