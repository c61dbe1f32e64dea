import EntityScript.Source.Parse

/-! # Readers

A reader that goes through was carried out step by step: `bind_eq_ok` takes such a run
apart, `bind_ok` puts one together. The elementary readers are settled by what comes first
among the tokens. -/

namespace EntityScript.Source.Parse

variable {α β : Type} {ts rest : List Spanned}

@[simp]
theorem pure_apply (a : α) (ts : List Spanned) : (pure a : Parse α) ts = .ok (a, ts) := rfl

@[simp]
theorem throw_apply (r : Refusal) (ts : List Spanned) : (throw r : Parse α) ts = .error r := rfl

theorem bind_ok {p : Parse α} {a : α} (h : p ts = .ok (a, rest)) (f : α → Parse β) :
    (p >>= f) ts = f a rest := by
  show (p ts >>= fun x => f x.1 x.2) = f a rest
  rw [h]
  rfl

theorem bind_error {p : Parse α} {r : Refusal} (h : p ts = .error r) (f : α → Parse β) :
    (p >>= f) ts = .error r := by
  show (p ts >>= fun x => f x.1 x.2) = .error r
  rw [h]
  rfl

theorem bind_eq_ok {p : Parse α} {f : α → Parse β} {b : β} :
    (p >>= f) ts = .ok (b, rest) ↔ ∃ a mid, p ts = .ok (a, mid) ∧ f a mid = .ok (b, rest) := by
  constructor
  · intro h
    cases hp : p ts with
    | error r =>
      rw [bind_error hp] at h
      cases h
    | ok x =>
      rw [bind_ok hp] at h
      exact ⟨x.1, x.2, rfl, h⟩
  · rintro ⟨a, mid, hp, hf⟩
    rw [bind_ok hp, hf]

theorem map_eq_ok {x : Except Refusal α} {f : α → β} {b : β} :
    x.map f = .ok b ↔ ∃ a, x = .ok a ∧ f a = b := by
  cases x <;> simp [Except.map]

/-! ## Tokens with their places -/

theorem map_token_eq_cons {ss : List Spanned} {t : Token} {ts : List Token} :
    ss.map Spanned.token = t :: ts ↔
      ∃ start stop ss', ss = ⟨t, start, stop⟩ :: ss' ∧ ss'.map Spanned.token = ts := by
  constructor
  · intro h
    obtain ⟨s, ss', rfl, rfl, hts⟩ := List.map_eq_cons_iff.mp h
    exact ⟨s.start, s.stop, ss', rfl, hts⟩
  · rintro ⟨start, stop, ss', rfl, rfl⟩
    rfl

theorem map_token_eq_singleton {ss : List Spanned} {t : Token} :
    ss.map Spanned.token = [t] ↔ ∃ start stop, ss = [⟨t, start, stop⟩] := by
  rw [map_token_eq_cons]
  simp

/-! ## Elementary readers -/

theorem eat_self {m : Mark} {start stop : Nat} (rest : List Spanned) :
    eat m (⟨.mark m, start, stop⟩ :: rest) = .ok (true, rest) := by
  simp [eat]

theorem eat_of_ne {m : Mark} {s : Spanned} (h : s.token ≠ .mark m) (rest : List Spanned) :
    eat m (s :: rest) = .ok (false, s :: rest) := by
  unfold eat
  split
  · rename_i heq
    cases heq
    split
    · rename_i hm
      exact absurd (by rw [hm]) h
    · rfl
  · rfl

theorem expect_eq_ok {m : Mark} {u : Unit} :
    expect m ts = .ok (u, rest) ↔ ∃ start stop, ts = ⟨.mark m, start, stop⟩ :: rest := by
  constructor
  · intro h
    obtain ⟨b, mid, heat, hrest⟩ := bind_eq_ok.mp h
    unfold eat at heat
    split at heat
    · rename_i m' start stop ts'
      split at heat
      · rename_i hm
        cases heat
        cases hrest
        exact ⟨start, stop, by rw [hm]⟩
      · cases heat
        cases hrest
    · cases heat
      cases hrest
  · rintro ⟨start, stop, rfl⟩
    rw [expect, bind_ok (eat_self rest)]
    rfl

theorem ident_eq_ok {what name : String} :
    ident what ts = .ok (name, rest) ↔ ∃ start stop, ts = ⟨.ident name, start, stop⟩ :: rest := by
  constructor
  · intro h
    unfold ident at h
    split at h
    · cases h
      exact ⟨_, _, rfl⟩
    · cases h
  · rintro ⟨start, stop, rfl⟩
    rfl

/-! ## Whole texts -/

theorem run_eq_ok {p : Parse α} {source : String} {a : α} :
    p.run source = .ok a ↔ ∃ ts rest, scan source = .ok ts ∧ p ts = .ok (a, rest) := by
  unfold run
  constructor
  · intro h
    split at h
    · cases h
    · rename_i ts hscan
      split at h
      · cases h
      · rename_i b rest hp
        cases h
        exact ⟨ts, rest, hscan, hp⟩
  · rintro ⟨ts, rest, hscan, hp⟩
    simp only [hscan, hp]

end EntityScript.Source.Parse
