import EntityScript.Proofs.Send.Bound

/-! # The recursion of sending

`Queue.send` obeys its recursion without a bound: a message that is held changes nothing
(`send_held`), any other is added and then each of its subscribers is told (`send_new`,
`spread`). `send_induction` is induction along that recursion. -/

namespace EntityScript.Queue

/-- Tell subscribers one after another of an event with arguments `args`, up to the
first fault. -/
def spread (t : Table) (subs : Subscriptions) (args : List Value) :
    List Subscription → Queue → Except Fault Unit × Queue
  | [], q => (.ok (), q)
  | s :: ss, q =>
    match s.message t args with
    | .error fault => (.error fault, q)
    | .ok none => spread t subs args ss q
    | .ok (some m) =>
      match q.send t subs m with
      | (.error fault, q) => (.error fault, q)
      | (.ok (), q) => spread t subs args ss q

variable {t : Table} {subs : Subscriptions}

/-! ## What telling the first subscriber does -/

section Spread

variable {args : List Value} {s : Subscription} {ss : List Subscription} {q : Queue} {m : Message}

theorem spread_error {fault : Fault} (h : s.message t args = .error fault) :
    spread t subs args (s :: ss) q = (.error fault, q) := by
  simp only [spread, h]

theorem spread_silent (h : s.message t args = .ok none) :
    spread t subs args (s :: ss) q = spread t subs args ss q := by
  simp only [spread, h]

theorem spread_stopped (h : s.message t args = .ok (some m)) {fault : Fault}
    (hm : (q.send t subs m).1 = .error fault) :
    spread t subs args (s :: ss) q = (.error fault, (q.send t subs m).2) := by
  simp only [spread, h]
  rw [show q.send t subs m = (.error fault, (q.send t subs m).2) from Prod.ext hm rfl]

theorem spread_told (h : s.message t args = .ok (some m)) (hm : (q.send t subs m).1 = .ok ()) :
    spread t subs args (s :: ss) q = spread t subs args ss (q.send t subs m).2 := by
  rw [spread, h]
  simp only
  rw [show q.send t subs m = (.ok (), (q.send t subs m).2) from Prod.ext hm rfl]

end Spread

/-! ## Sending one message -/

theorem tell_eq_spread {f : Queue → Message → Option (Except Fault Unit × Queue)}
    (hf : ∀ q m x, f q m = some x → q.send t subs m = x) {args : List Value}
    {ss : List Subscription} {q q' : Queue} {r : Except Fault Unit}
    (h : tell f t args ss q = some (r, q')) : spread t subs args ss q = (r, q') := by
  induction ss generalizing q with
  | nil => cases h; rfl
  | cons s ss ih =>
    rcases tell_cons_cases h with ⟨fault, hm, rfl, rfl⟩ | ⟨hm, h⟩ | ⟨b, fault, hm, hb, rfl⟩ |
      ⟨b, q₁, hm, hb, h⟩
    · exact spread_error hm
    · rw [spread_silent hm]; exact ih h
    · have hs := hf _ _ _ hb
      rw [spread_stopped hm (congrArg Prod.fst hs), hs]
    · have hs := hf _ _ _ hb
      rw [spread_told hm (congrArg Prod.fst hs), hs]
      exact ih h

theorem send_held {q : Queue} {m : Message} (h : q.holds m = true) :
    q.send t subs m = (.ok (), q) := by
  have hd := deliver_mono (Nat.le_succ _) (deliver_chainBound t subs q m)
  rw [deliver_succ, if_pos h] at hd
  exact (Option.some.inj hd).symm

theorem send_new {q : Queue} {m : Message} (h : q.holds m = false) :
    q.send t subs m = spread t subs m.args (m.audience t subs) (q.push m) := by
  have hd := deliver_mono (Nat.le_succ _) (deliver_chainBound t subs q m)
  rw [deliver_succ, h, if_neg Bool.false_ne_true] at hd
  exact (tell_eq_spread (fun _ _ _ => send_of_deliver) hd).symm

/-! ## Induction -/

/-- Induction along the recursion: `P` speaks of sending a message and `R` of telling
subscribers. -/
theorem send_induction (t : Table) (subs : Subscriptions) (P : Queue → Message → Prop)
    (R : List Value → List Subscription → Queue → Prop)
    (held : ∀ q m, q.holds m = true → P q m)
    (new : ∀ q m, q.holds m = false → R m.args (m.audience t subs) (q.push m) → P q m)
    (done : ∀ args q, R args [] q)
    (error : ∀ args s ss q fault, s.message t args = .error fault → R args (s :: ss) q)
    (silent : ∀ args s ss q, s.message t args = .ok none → R args ss q → R args (s :: ss) q)
    (stopped : ∀ args s ss q m fault, s.message t args = .ok (some m) → P q m →
      (q.send t subs m).1 = .error fault → R args (s :: ss) q)
    (told : ∀ args s ss q m, s.message t args = .ok (some m) → P q m →
      (q.send t subs m).1 = .ok () → R args ss (q.send t subs m).2 → R args (s :: ss) q)
    (q : Queue) (m : Message) : P q m := by
  -- on the bound of `deliver`, and for each bound on the subscribers still to be told
  have deep : ∀ depth q m x, deliver t subs depth q m = some x → P q m := by
    intro depth
    induction depth with
    | zero => intro q m x h; cases h
    | succ depth ih =>
      have spreads : ∀ args ss q r q', tell (deliver t subs depth) t args ss q = some (r, q') →
          R args ss q := by
        intro args ss
        induction ss with
        | nil => intro q r q' _; exact done args q
        | cons s ss ihs =>
          intro q r q' h
          rcases tell_cons_cases h with ⟨fault, hm, _⟩ | ⟨hm, h⟩ | ⟨b, fault, hm, hb, _⟩ |
            ⟨b, q₁, hm, hb, h⟩
          · exact error args s ss q fault hm
          · exact silent args s ss q hm (ihs q r q' h)
          · have hs := send_of_deliver hb
            exact stopped args s ss q b fault hm (ih q b _ hb) (congrArg Prod.fst hs)
          · have hs := send_of_deliver hb
            exact told args s ss q b hm (ih q b _ hb) (congrArg Prod.fst hs)
              (by rw [hs]; exact ihs q₁ r q' h)
      intro q m x h
      rw [deliver_succ] at h
      split at h
      · rename_i hq
        exact held q m hq
      · rename_i hq
        exact new q m (Bool.eq_false_iff.mpr hq) (spreads _ _ _ _ _ h)
  exact deep _ q m _ (deliver_chainBound t subs q m)

end EntityScript.Queue
