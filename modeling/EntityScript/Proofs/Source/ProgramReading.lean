import EntityScript.Proofs.Source.Outline
import EntityScript.Proofs.Source.ProgramGrammar
import EntityScript.Proofs.Source.Reading

/-! # Reading programs by the grammar

What a reader takes from the front of the tokens derives what it yields (`Reads`): no token
is left out and none is read twice, because the tokens taken one behind another are those
that were there (`Takes.trans`). One lemma for each reader puts the tokens of its parts
together to a production of the grammar; readers that call themselves go by induction on the
number of steps or on the depth. -/

namespace EntityScript.Source.Parse

open Grammar

variable {α : Type} {ts mid rest : List Spanned} {us vs : List Token}

/-! ## Taking tokens -/

/-- The first tokens of `ts` are `us`, and behind them comes `rest`. -/
def Takes (us : List Token) (ts rest : List Spanned) : Prop :=
  ∃ taken, ts = taken ++ rest ∧ taken.map Spanned.token = us

theorem Takes.refl (ts : List Spanned) : Takes [] ts ts := ⟨[], rfl, rfl⟩

theorem Takes.one (t : Token) (start stop : Nat) (rest : List Spanned) :
    Takes [t] (⟨t, start, stop⟩ :: rest) rest := ⟨[_], rfl, rfl⟩

theorem Takes.trans (h : Takes us ts mid) (h' : Takes vs mid rest) :
    Takes (us ++ vs) ts rest := by
  obtain ⟨taken, rfl, rfl⟩ := h
  obtain ⟨taken', rfl, rfl⟩ := h'
  exact ⟨taken ++ taken', by simp, by simp⟩

theorem Takes.map_token (h : Takes us ts rest) :
    ts.map Spanned.token = us ++ rest.map Spanned.token := by
  obtain ⟨taken, rfl, rfl⟩ := h
  exact List.map_append

/-! ## Elementary readers -/

theorem takes_of_expect {m : Mark} {u : Unit} (h : expect m ts = .ok (u, rest)) :
    Takes [.mark m] ts rest := by
  obtain ⟨start, stop, rfl⟩ := expect_eq_ok.mp h
  exact .one _ _ _ _

theorem takes_of_expectWord {k : Keyword} {u : Unit} (h : expectWord k ts = .ok (u, rest)) :
    Takes [.keyword k] ts rest := by
  unfold expectWord at h
  split at h
  · split at h
    · rename_i hk
      cases h
      exact hk ▸ .one _ _ _ _
    · cases h
  · cases h

theorem takes_of_ident {what name : String} (h : ident what ts = .ok (name, rest)) :
    Takes [.ident name] ts rest := by
  obtain ⟨start, stop, rfl⟩ := ident_eq_ok.mp h
  exact .one _ _ _ _

theorem eat_cases {m : Mark} {b : Bool} (h : eat m ts = .ok (b, rest)) :
    b = true ∧ Takes [.mark m] ts rest ∨ b = false ∧ ts = rest := by
  unfold eat at h
  split at h
  · split at h
    · rename_i hm
      cases h
      exact .inl ⟨rfl, hm ▸ .one _ _ _ _⟩
    · cases h
      exact .inr ⟨rfl, rfl⟩
  · cases h
    exact .inr ⟨rfl, rfl⟩

theorem comes_cases {m : Mark} {b : Bool} (h : comes m ts = .ok (b, rest)) :
    b = true ∧ ts = rest ∧ (∃ start stop tail, rest = ⟨.mark m, start, stop⟩ :: tail) ∨
      b = false ∧ ts = rest := by
  unfold comes at h
  split at h
  · rename_i m' start stop tail
    cases h
    by_cases hm : m' = m
    · exact .inl ⟨decide_eq_true hm, rfl, start, stop, tail, by rw [hm]⟩
    · exact .inr ⟨decide_eq_false hm, rfl⟩
  · cases h
    exact .inr ⟨rfl, rfl⟩

/-! ## Readers of a grammar -/

/-- What the reader takes derives what it yields. -/
def Reads (p : Parse α) (Item : List Token → α → Prop) : Prop :=
  ∀ ts a rest, p ts = .ok (a, rest) → ∃ us, Takes us ts rest ∧ Item us a

theorem Reads.fuelled {p : Nat → Parse α} {Item : List Token → α → Prop}
    (h : ∀ fuel, Reads (p fuel) Item) : Reads (fuelled p) Item :=
  fun ts a rest hp => h (ts.length + 1) ts a rest hp

theorem Reads.unexpected (what : String) (Item : List Token → α → Prop) :
    Reads (Parse.unexpected what) Item := by
  intro ts a rest h
  cases h

/-- Together with the token `t` before it, what the reader takes derives what it yields. -/
def ReadsBehind (t : Token) (p : Parse α) (Item : List Token → α → Prop) : Prop :=
  Reads p fun us a => Item (t :: us) a

theorem ReadsBehind.cons {t : Token} {p : Parse α} {Item : List Token → α → Prop} {a : α}
    (hp : ReadsBehind t p Item) (start stop : Nat) (h : p ts = .ok (a, rest)) :
    ∃ us, Takes us (⟨t, start, stop⟩ :: ts) rest ∧ Item us a := by
  obtain ⟨us, hus, ha⟩ := hp _ _ _ h
  exact ⟨_, (Takes.one t start stop ts).trans hus, ha⟩

/-- The tokens of an item, with a closing mark behind them. -/
def ClosedBy (close : Mark) (Item : List Token → α → Prop) (us : List Token) (a : α) : Prop :=
  ∃ vs, us = vs ++ [.mark close] ∧ Item vs a

theorem ident_reads (what : String) : Reads (ident what) Name :=
  fun _ name _ h => ⟨_, takes_of_ident h, .intro name⟩

theorem expr_reads : Reads expr (Derives .disjunction) := by
  intro ts e rest h
  obtain ⟨taken, hts, hderives⟩ := exprWithin_sound _ ts e rest h
  exact ⟨_, ⟨taken, hts, rfl⟩, hderives⟩

/-! ## Lists -/

section Lists

variable {item : Parse α} {Item : List Token → α → Prop}

theorem itemsThrough_reads (hitem : Reads item Item) (close : Mark) (fuel : Nat) :
    Reads (itemsThrough item close fuel) (ClosedBy close (Divided Item)) := by
  induction fuel with
  | zero => exact .unexpected _ _
  | succ fuel ih =>
    intro ts as rest h
    obtain ⟨a, ts₁, ha, h⟩ := bind_eq_ok.mp h
    obtain ⟨us, hus, ha⟩ := hitem _ _ _ ha
    obtain ⟨closed, ts₂, hclosed, h⟩ := bind_eq_ok.mp h
    obtain ⟨rfl, hclose⟩ | ⟨rfl, rfl⟩ := eat_cases hclosed
    · cases h
      exact ⟨_, hus.trans hclose, us, rfl, .last ha⟩
    · obtain ⟨_, ts₃, hcomma, h⟩ := bind_eq_ok.mp h
      obtain ⟨as, ts₄, has, h⟩ := bind_eq_ok.mp h
      cases h
      obtain ⟨_, htail, vs, rfl, htail'⟩ := ih _ _ _ has
      exact ⟨_, hus.trans ((takes_of_expect hcomma).trans htail), us ++ .mark .comma :: vs,
        by simp, .cons ha htail'⟩

theorem listThrough_reads (hitem : Reads item Item) (opening close : Mark) :
    ReadsBehind (.mark opening) (listThrough item close) (Enclosed Item opening close) := by
  intro ts as rest h
  obtain ⟨closed, ts₁, hclosed, h⟩ := bind_eq_ok.mp h
  obtain ⟨rfl, hclose⟩ | ⟨rfl, rfl⟩ := eat_cases hclosed
  · cases h
    exact ⟨_, hclose, .empty⟩
  · obtain ⟨_, hus, vs, rfl, has⟩ := Reads.fuelled (itemsThrough_reads hitem close) _ _ _ h
    exact ⟨_, hus, .items has⟩

end Lists

/-! ## Literals -/

theorem literalWith_reads {inner : Parse Value} (hinner : Reads inner Literal) :
    Reads (literalWith inner) Literal := by
  intro ts v rest h
  unfold literalWith at h
  split at h
  · rename_i hscalar
    cases h
    unfold scalar? at hscalar
    split at hscalar
    · cases hscalar
      exact ⟨_, .one _ _ _ _, .number _⟩
    · cases hscalar
      exact ⟨_, (Takes.one _ _ _ _).trans (.one _ _ _ _), .negative _⟩
    · cases hscalar
      exact ⟨_, .one _ _ _ _, .string _⟩
    · cases hscalar
      exact ⟨_, .one _ _ _ _, .true⟩
    · cases hscalar
      exact ⟨_, .one _ _ _ _, .false⟩
    · cases hscalar
      exact ⟨_, .one _ _ _ _, .null⟩
    · cases hscalar
  · split at h
    · cases h
    · obtain ⟨_, ts₁, hopening, h⟩ := bind_eq_ok.mp h
      obtain ⟨vs, ts₂, hvs, h⟩ := bind_eq_ok.mp h
      cases h
      obtain ⟨us, hus, henclosed⟩ := listThrough_reads hinner .leftBracket _ _ _ _ hvs
      exact ⟨_, (Takes.one _ _ _ _).trans ((takes_of_expect hopening).trans hus),
        .pool henclosed⟩
    · cases h

theorem literalWithin_reads (depth : Nat) : Reads (literalWithin depth) Literal := by
  induction depth with
  | zero => exact .unexpected _ _
  | succ depth ih => exact literalWith_reads ih

/-! ## Parts of actions -/

theorem args?_reads : Reads args? (Optional Arguments) := by
  intro ts args rest h
  obtain ⟨given, ts₁, hgiven, h⟩ := bind_eq_ok.mp h
  obtain ⟨rfl, hopening⟩ | ⟨rfl, rfl⟩ := eat_cases hgiven
  · obtain ⟨es, ts₂, hes, h⟩ := bind_eq_ok.mp h
    cases h
    obtain ⟨us, hus, henclosed⟩ := listThrough_reads expr_reads .leftParen _ _ _ _ hes
    exact ⟨_, hopening.trans hus, .present henclosed⟩
  · cases h
    exact ⟨_, .refl _, .absent⟩

/-- An index in brackets, behind the name of a pool. -/
theorem bracketed_reads {pool : String} {s : String × Expr}
    (h : (do expect .leftBracket; let index ← expr; expect .rightBracket; return (pool, index) :
      Parse (String × Expr)) ts = .ok (s, rest)) :
    ∃ us e, s = (pool, e) ∧ Takes (.mark .leftBracket :: (us ++ [.mark .rightBracket])) ts rest ∧
      Derives .disjunction us e := by
  obtain ⟨_, ts₁, hopening, h⟩ := bind_eq_ok.mp h
  obtain ⟨e, ts₂, he, h⟩ := bind_eq_ok.mp h
  obtain ⟨_, ts₃, hclosing, h⟩ := bind_eq_ok.mp h
  cases h
  obtain ⟨us, hus, hderives⟩ := expr_reads _ _ _ he
  exact ⟨us, e, rfl, (takes_of_expect hopening).trans (hus.trans (takes_of_expect hclosing)),
    hderives⟩

theorem indexedSlot_reads :
    Reads indexedSlot fun us s => Slot us (s.1, some s.2) := by
  intro ts s rest h
  obtain ⟨pool, ts₁, hpool, h⟩ := bind_eq_ok.mp h
  obtain ⟨dotted, ts₂, hdotted, h⟩ := bind_eq_ok.mp h
  obtain ⟨rfl, hdot⟩ | ⟨rfl, rfl⟩ := eat_cases hdotted
  · obtain ⟨member, ts₃, hmember, h⟩ := bind_eq_ok.mp h
    obtain ⟨us, e, rfl, hus, hderives⟩ := bracketed_reads h
    exact ⟨_, (takes_of_ident hpool).trans (hdot.trans ((takes_of_ident hmember).trans hus)),
      .memberIndex pool member hderives⟩
  · obtain ⟨us, e, rfl, hus, hderives⟩ := bracketed_reads h
    exact ⟨_, (takes_of_ident hpool).trans hus, .index pool hderives⟩

/-- A slot that cannot be read as a whole is read again as a name, from the same tokens. -/
theorem slot_reads : Reads slot Slot := by
  intro ts s rest h
  unfold slot at h
  split at h
  · rename_i hindexed
    cases h
    exact indexedSlot_reads _ _ _ hindexed
  · obtain ⟨⟨name, rest'⟩, hname, heq⟩ := map_eq_ok.mp h
    cases heq
    exact ⟨_, takes_of_ident hname, .name name⟩

theorem emitPath_reads : Reads emitPath Destination := by
  intro ts path rest h
  obtain ⟨first, ts₁, hfirst, h⟩ := bind_eq_ok.mp h
  obtain ⟨dotted, ts₂, hdotted, h⟩ := bind_eq_ok.mp h
  obtain ⟨rfl, hdot⟩ | ⟨rfl, rfl⟩ := eat_cases hdotted
  · obtain ⟨second, ts₃, hsecond, h⟩ := bind_eq_ok.mp h
    obtain ⟨dotted, ts₄, hdotted, h⟩ := bind_eq_ok.mp h
    have htwo := (takes_of_ident hfirst).trans (hdot.trans (takes_of_ident hsecond))
    obtain ⟨rfl, hdot'⟩ | ⟨rfl, rfl⟩ := eat_cases hdotted
    · obtain ⟨third, ts₅, hthird, h⟩ := bind_eq_ok.mp h
      obtain ⟨dotted, ts₆, hdotted, h⟩ := bind_eq_ok.mp h
      obtain ⟨rfl, _⟩ | ⟨rfl, rfl⟩ := eat_cases hdotted
      · cases h
      · cases h
        exact ⟨_, htwo.trans (hdot'.trans (takes_of_ident hthird)), .remote first second third⟩
    · cases h
      split
      · rename_i hself
        exact ⟨_, htwo, hself ▸ .self second⟩
      · rename_i hself
        exact ⟨_, htwo, .named second hself⟩
  · cases h
    exact ⟨_, takes_of_ident hfirst, .implicit first⟩

theorem subscription_reads : Reads subscription Subscribed := by
  intro ts s rest h
  obtain ⟨target, ts₁, htarget, h⟩ := bind_eq_ok.mp h
  obtain ⟨_, ts₂, hdot, h⟩ := bind_eq_ok.mp h
  obtain ⟨event, ts₃, hevent, h⟩ := bind_eq_ok.mp h
  obtain ⟨_, ts₄, hcolon, h⟩ := bind_eq_ok.mp h
  obtain ⟨handler, ts₅, hhandler, h⟩ := bind_eq_ok.mp h
  cases h
  exact ⟨_, (takes_of_ident htarget).trans ((takes_of_expect hdot).trans
    ((takes_of_ident hevent).trans ((takes_of_expect hcolon).trans (takes_of_ident hhandler)))),
    .intro target event handler⟩

/-! ## Actions -/

theorem assignment_reads : Reads assignment DerivesAction := by
  intro ts a rest h
  obtain ⟨value, ts₁, hvalue, h⟩ := bind_eq_ok.mp h
  obtain ⟨_, ts₂, harrow, h⟩ := bind_eq_ok.mp h
  obtain ⟨⟨name, index⟩, ts₃, hslot, h⟩ := bind_eq_ok.mp h
  obtain ⟨us, hus, hderives⟩ := expr_reads _ _ _ hvalue
  obtain ⟨vs, hvs, hplace⟩ := slot_reads _ _ _ hslot
  have htaken := hus.trans ((takes_of_expect harrow).trans hvs)
  cases index with
  | none =>
    cases h
    exact ⟨_, htaken, .set hderives hplace⟩
  | some index =>
    cases h
    exact ⟨_, htaken, .setIndexed hderives hplace⟩

theorem emit_reads : ReadsBehind (.keyword .emit) emit DerivesAction := by
  intro ts a rest h
  obtain ⟨⟨target, event⟩, ts₁, hpath, h⟩ := bind_eq_ok.mp h
  obtain ⟨args, ts₂, hargs, h⟩ := bind_eq_ok.mp h
  obtain ⟨returns, ts₃, hreturns, h⟩ := bind_eq_ok.mp h
  obtain ⟨us, hus, hdestination⟩ := emitPath_reads _ _ _ hpath
  obtain ⟨vs, hvs, harguments⟩ := args?_reads _ _ _ hargs
  obtain ⟨rfl, harrow⟩ | ⟨rfl, rfl⟩ := eat_cases hreturns
  · cases target with
    -- the reader stops at an arrow behind a pool of another entity
    | remote entity pool => cases h
    | implicit | self | named name =>
      obtain ⟨⟨name, index⟩, ts₄, hslot, h⟩ := bind_eq_ok.mp h
      obtain ⟨ws, hws, hplace⟩ := slot_reads _ _ _ hslot
      have htaken := hus.trans (hvs.trans (harrow.trans hws))
      cases index with
      | none =>
        cases h
        exact ⟨_, htaken, .call hdestination (by simp) harguments hplace⟩
      | some index =>
        cases h
        exact ⟨_, htaken, .callIndexed hdestination (by simp) harguments hplace⟩
  · cases h
    exact ⟨_, hus.trans hvs, .emit hdestination harguments⟩

theorem subscribe_reads : ReadsBehind (.keyword .when) subscribe DerivesAction := by
  intro ts a rest h
  obtain ⟨⟨target, event, handler⟩, ts₁, hsubscription, h⟩ := bind_eq_ok.mp h
  obtain ⟨args, ts₂, hargs, h⟩ := bind_eq_ok.mp h
  cases h
  obtain ⟨us, hus, hsubscribed⟩ := subscription_reads _ _ _ hsubscription
  obtain ⟨vs, hvs, harguments⟩ := args?_reads _ _ _ hargs
  exact ⟨_, hus.trans hvs, .subscribe hsubscribed harguments⟩

theorem unsubscribe_reads : ReadsBehind (.keyword .unwhen) unsubscribe DerivesAction := by
  intro ts a rest h
  obtain ⟨⟨target, event, handler⟩, ts₁, hsubscription, h⟩ := bind_eq_ok.mp h
  cases h
  obtain ⟨us, hus, hsubscribed⟩ := subscription_reads _ _ _ hsubscription
  exact ⟨us, hus, .unsubscribe hsubscribed⟩

theorem actionsThrough_reads {inner : Parse Action} (hinner : Reads inner DerivesAction)
    (fuel : Nat) :
    Reads (actionsThrough inner fuel) (ClosedBy .rightBrace (Sequence DerivesAction)) := by
  induction fuel with
  | zero => exact .unexpected _ _
  | succ fuel ih =>
    intro ts as rest h
    obtain ⟨closed, ts₁, hclosed, h⟩ := bind_eq_ok.mp h
    obtain ⟨rfl, hclose⟩ | ⟨rfl, rfl⟩ := eat_cases hclosed
    · cases h
      exact ⟨_, hclose, [], rfl, .nil⟩
    · obtain ⟨_, ts₂, hended, h⟩ := bind_eq_ok.mp h
      cases hended
      cases ts with
      | nil => cases h
      | cons s ts =>
        obtain ⟨a, ts₃, ha, h⟩ := bind_eq_ok.mp h
        obtain ⟨as, ts₄, has, h⟩ := bind_eq_ok.mp h
        cases h
        obtain ⟨us, hus, haction⟩ := hinner _ _ _ ha
        obtain ⟨_, hmore, vs, rfl, hactions⟩ := ih _ _ _ has
        exact ⟨_, hus.trans hmore, us ++ vs, by simp, .cons haction hactions⟩

/-- An action that starts with a brace is a block. -/
theorem actionWithin_block {depth start stop : Nat} {a : Action}
    (h : actionWithin depth (⟨.mark .leftBrace, start, stop⟩ :: ts) = .ok (a, rest)) :
    ∃ body, a = .block body := by
  cases depth with
  | zero => cases h
  | succ depth =>
    obtain ⟨body, ts₁, _, h⟩ := bind_eq_ok.mp h
    cases h
    exact ⟨body, rfl⟩

theorem checkWith_reads {depth : Nat} (hinner : Reads (actionWithin depth) DerivesAction) :
    ReadsBehind (.keyword .check) (checkWith (actionWithin depth)) DerivesAction := by
  intro ts a rest h
  obtain ⟨condition, ts₁, hcondition, h⟩ := bind_eq_ok.mp h
  obtain ⟨us, hus, hderives⟩ := expr_reads _ _ _ hcondition
  obtain ⟨colon, ts₂, hcolon, h⟩ := bind_eq_ok.mp h
  obtain ⟨rfl, hmark⟩ | ⟨rfl, rfl⟩ := eat_cases hcolon
  · obtain ⟨action, ts₃, hthen, h⟩ := bind_eq_ok.mp h
    cases h
    obtain ⟨vs, hvs, haction⟩ := hinner _ _ _ hthen
    exact ⟨_, hus.trans (hmark.trans hvs), .check hderives haction⟩
  · obtain ⟨brace, ts₃, hbrace, h⟩ := bind_eq_ok.mp h
    obtain ⟨rfl, rfl, start, stop, ts₄, rfl⟩ | ⟨rfl, rfl⟩ := comes_cases hbrace
    · -- the brace was looked at and not taken, so the action starts with it
      obtain ⟨action, ts₅, hthen, h⟩ := bind_eq_ok.mp h
      cases h
      obtain ⟨vs, hvs, haction⟩ := hinner _ _ _ hthen
      obtain ⟨body, rfl⟩ := actionWithin_block hthen
      obtain ⟨ws, rfl, hbody⟩ := haction.of_block
      exact ⟨_, hus.trans hvs, .checkBlock hderives hbody⟩
    · cases h
      exact ⟨us, hus, .guard hderives⟩

theorem actionWithin_reads (depth : Nat) : Reads (actionWithin depth) DerivesAction := by
  induction depth with
  | zero => exact .unexpected _ _
  | succ depth ih =>
    intro ts a rest h
    unfold actionWithin actionWith at h
    split at h
    · obtain ⟨body, ts₁, hbody, h⟩ := bind_eq_ok.mp h
      cases h
      obtain ⟨_, hus, vs, rfl, hactions⟩ := Reads.fuelled (actionsThrough_reads ih) _ _ _ hbody
      exact ⟨_, (Takes.one _ _ _ _).trans hus, .block hactions⟩
    · exact (checkWith_reads ih).cons _ _ h
    · exact emit_reads.cons _ _ h
    · exact subscribe_reads.cons _ _ h
    · exact unsubscribe_reads.cons _ _ h
    · exact assignment_reads _ _ _ h

theorem body_reads : Reads body (ClosedBy .rightBrace (Sequence DerivesAction)) :=
  .fuelled (actionsThrough_reads (.fuelled actionWithin_reads))

/-! ## Entities -/

/-- Actions in braces, as the end of what `f` makes of them. -/
theorem braced_reads {f : List Action → α} {a : α}
    (h : (do expect .leftBrace; return f (← body) : Parse α) ts = .ok (a, rest)) :
    ∃ us as, a = f as ∧ Takes (.mark .leftBrace :: (us ++ [.mark .rightBrace])) ts rest ∧
      Sequence DerivesAction us as := by
  obtain ⟨_, ts₁, hbrace, h⟩ := bind_eq_ok.mp h
  obtain ⟨as, ts₂, has, h⟩ := bind_eq_ok.mp h
  cases h
  obtain ⟨_, hus, us, rfl, hderives⟩ := body_reads _ _ _ has
  exact ⟨us, as, rfl, (takes_of_expect hbrace).trans hus, hderives⟩

theorem event_reads : ReadsBehind (.keyword .on) event DerivesEvent := by
  intro ts e rest h
  obtain ⟨name, ts₁, hname, h⟩ := bind_eq_ok.mp h
  obtain ⟨given, ts₂, hgiven, h⟩ := bind_eq_ok.mp h
  obtain ⟨rfl, hopening⟩ | ⟨rfl, rfl⟩ := eat_cases hgiven
  · obtain ⟨params, ts₃, hparams, h⟩ := bind_eq_ok.mp h
    obtain ⟨us, hus, henclosed⟩ := listThrough_reads (ident_reads _) .leftParen _ _ _ _ hparams
    obtain ⟨vs, actions, rfl, hvs, hbody⟩ := braced_reads h
    exact ⟨_, (takes_of_ident hname).trans ((hopening.trans hus).trans hvs),
      .intro name (.present henclosed) hbody⟩
  · obtain ⟨_, ts₂, hnone, h⟩ := bind_eq_ok.mp h
    cases hnone
    obtain ⟨vs, actions, rfl, hvs, hbody⟩ := braced_reads h
    exact ⟨_, (takes_of_ident hname).trans hvs, .intro name .absent hbody⟩

theorem member_reads : Reads member fun us m =>
    ∀ vs ms, Members vs (fieldsOf ms) (eventsOf ms) →
      Members (us ++ vs) (fieldsOf (m :: ms)) (eventsOf (m :: ms)) := by
  intro ts m rest h
  unfold member at h
  split at h
  · obtain ⟨⟨⟨name, v⟩, rest'⟩, hfield, heq⟩ := map_eq_ok.mp h
    cases heq
    obtain ⟨_, ts₁, hname, hfield⟩ := bind_eq_ok.mp hfield
    obtain ⟨_, ts₂, hcolon, hfield⟩ := bind_eq_ok.mp hfield
    obtain ⟨_, ts₃, hliteral, hfield⟩ := bind_eq_ok.mp hfield
    cases hfield
    obtain ⟨us, hus, hliteral⟩ := Reads.fuelled literalWithin_reads _ _ _ hliteral
    exact ⟨_, (Takes.one _ _ _ _).trans ((takes_of_ident hname).trans
      ((takes_of_expect hcolon).trans hus)), fun _ _ => .field name hliteral⟩
  · obtain ⟨⟨e, rest'⟩, hevent, heq⟩ := map_eq_ok.mp h
    cases heq
    obtain ⟨us, hus, hderives⟩ := event_reads.cons _ _ hevent
    exact ⟨us, hus, fun _ _ => .event hderives⟩
  · cases h

theorem membersThrough_reads (clash? : List Member → Member → Option Refusal) (fuel : Nat)
    (before : List Member) : Reads (membersThrough clash? fuel before) fun us ms =>
      ∃ added vs, ms = before ++ added ∧ us = vs ++ [.mark .rightBrace] ∧
        Members vs (fieldsOf added) (eventsOf added) := by
  induction fuel generalizing before with
  | zero => exact .unexpected _ _
  | succ fuel ih =>
    intro ts ms rest h
    obtain ⟨closed, ts₁, hclosed, h⟩ := bind_eq_ok.mp h
    obtain ⟨rfl, hclose⟩ | ⟨rfl, rfl⟩ := eat_cases hclosed
    · cases h
      exact ⟨_, hclose, [], [], by simp, rfl, .nil⟩
    · obtain ⟨m, ts₂, hm, h⟩ := bind_eq_ok.mp h
      obtain ⟨us, hus, hmember⟩ := member_reads _ _ _ hm
      cases hclash : clash? before m with
      | some refusal =>
        simp only [hclash] at h
        cases h
      | none =>
        simp only [hclash] at h
        obtain ⟨_, hmore, added, vs, rfl, rfl, hmembers⟩ := ih _ _ _ _ h
        exact ⟨_, hus.trans hmore, m :: added, us ++ vs, by simp, by simp,
          hmember vs added hmembers⟩

/-- The members of an entity that goes through have distinct names. -/
theorem distinct_of_declaration {o : Outline} {d : Declaration}
    (ho : outline ts = .ok (o, rest)) (h : declaration ts = .ok (d, mid)) :
    DistinctMembers o.members := by
  rw [declaration_eq ho] at h
  rw [← firstClash_members o.name]
  cases hclash : firstClash (clash? o.name) [] o.members with
  | none => rfl
  | some refusal =>
    rw [hclash] at h
    cases h

theorem declaration_reads : Reads declaration DerivesDeclaration := by
  intro ts d rest h
  obtain ⟨o, ho, rfl⟩ := outline_of_declaration h
  have hentries : o.declaration.fields.entries = fieldsOf o.members :=
    OrderedMap.entries_ofList (distinct_of_declaration ho h).1
  obtain ⟨_, ts₁, hword, ho⟩ := bind_eq_ok.mp ho
  obtain ⟨name, ts₂, hname, ho⟩ := bind_eq_ok.mp ho
  obtain ⟨_, ts₃, hbrace, ho⟩ := bind_eq_ok.mp ho
  obtain ⟨ms, ts₄, hms, ho⟩ := bind_eq_ok.mp ho
  cases ho
  obtain ⟨_, hus, _, vs, rfl, rfl, hmembers⟩ := membersThrough_reads _ _ _ _ _ _ hms
  rw [← hentries] at hmembers
  exact ⟨_, (takes_of_expectWord hword).trans ((takes_of_ident hname).trans
    ((takes_of_expect hbrace).trans hus)), .intro name hmembers⟩

/-- Nothing is left behind the last entity. -/
theorem declarations_derive {fuel : Nat} {before ds : List Declaration}
    (h : declarations fuel before ts = .ok (ds, rest)) :
    ∃ added, ds = before ++ added ∧
      Sequence DerivesDeclaration (ts.map Spanned.token) added := by
  induction fuel generalizing before ts with
  | zero => cases h
  | succ fuel ih =>
    obtain ⟨_, ts₁, hended, h⟩ := bind_eq_ok.mp h
    cases hended
    cases ts with
    | nil =>
      cases h
      exact ⟨[], by simp, .nil⟩
    | cons s ts =>
      obtain ⟨d, ts₂, hd, h⟩ := bind_eq_ok.mp h
      obtain ⟨us, hus, hderives⟩ := declaration_reads _ _ _ hd
      cases hany : before.any fun d' => d'.name == d.name with
      | true =>
        simp only [hany, if_true] at h
        cases h
      | false =>
        simp only [hany, Bool.false_eq_true, if_false] at h
        obtain ⟨added, rfl, hadded⟩ := ih h
        refine ⟨d :: added, by simp, ?_⟩
        rw [hus.map_token]
        exact .cons hderives hadded

end EntityScript.Source.Parse

namespace EntityScript

open Source Source.Parse

/-- **Programs are read by the grammar.** If a text denotes a program, all of its tokens
together, each in its one place, derive that program. -/
theorem Program.parse_derives {source : String} {p : Program}
    (h : Program.parse source = .ok p) :
    ∃ ts, scan source = .ok ts ∧ Grammar.DerivesProgram (ts.map Spanned.token) p := by
  obtain ⟨ts, rest, hscan, hp⟩ := run_eq_ok.mp h
  obtain ⟨ds, rest', hds, hp⟩ := bind_eq_ok.mp hp
  cases hp
  obtain ⟨added, rfl, hderives⟩ := declarations_derive hds
  exact ⟨ts, hscan, hderives⟩

/-- A bell that keeps the tones it rings with. -/
def Program.bellText : String :=
  "entity bell \x7b has tones: pool[null] on ring(n) \x7b " ++
    "check n: emit self.ring(n) -> tones[n] \x7d \x7d"

/-- The program of the bell. -/
def Program.bell : Program where
  declarations := [⟨"bell", .ofList [("tones", .pool [.null])], [⟨"ring", ["n"],
    [.check (.var "n") (.callIndexed .self "ring" [.var "n"] "tones" (.var "n"))]⟩]⟩]

theorem Program.parse_derives_bell : Program.parse Program.bellText = .ok Program.bell ∧
    ∃ ts, scan Program.bellText = .ok ts ∧
      Grammar.DerivesProgram (ts.map Spanned.token) Program.bell := by
  have hparse : Program.parse Program.bellText = .ok Program.bell := by
    decide +kernel
  exact ⟨hparse, Program.parse_derives hparse⟩

end EntityScript
