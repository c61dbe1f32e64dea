import EntityScript.Proofs.Source.Reader
import EntityScript.Source.Program

/-! # Assignment targets without going back

A target is first tried as a slot of a pool; where that fails, what was read is given back and
the target is a plain name (`slot`). A reader that commits itself takes a name with a bracket or
a dot behind it as the start of a slot and refuses what is no whole one (`committedSlot`).

In a program the two make no difference (`Program.parse_committed`). The committed reader
refuses a target that the other one takes only if a bracket or a dot is left in front of what
follows (`Commits`), and nothing in a program goes on with one: no action starts with it, and
it closes no actions. So such a text is refused all the same, a few tokens later. -/

namespace EntityScript.Source.Parse

/-! ## Reading with other targets -/

/-- The index of a slot, behind the name of its pool. -/
def slotIndex : Parse Expr := do
  if ← eat .dot then
    let _ ← ident "pool accessor"
  expect .leftBracket
  let index ← expr
  expect .rightBracket
  return index

/-- A place to assign to, without going back: behind a bracket or a dot there must be the rest
of a slot. -/
def committedSlot : Parse (String × Option Expr) := do
  let name ← ident "assignment target"
  if (← comes .leftBracket) || (← comes .dot) then
    return (name, some (← slotIndex))
  else
    return (name, none)

section Targets

variable (place : Parse (String × Option Expr))

/-- An expression assigned to a place. -/
def assignmentTo : Parse Action := do
  let value ← expr
  expect .arrow
  match ← place with
  | (pool, some index) => return .setIndexed value pool index
  | (name, none) => return .set value name

/-- An emit, behind its keyword. -/
def emitTo : Parse Action := do
  let (target, event) ← emitPath
  let args := (← args?).getD []
  if !(← eat .arrow) then
    return .emit target event args
  if let .remote _ _ := target then
    misplaced "a pool command cannot return a value"
  match ← place with
  | (pool, some index) => return .callIndexed target event args pool index
  | (field, none) => return .call target event args field

/-- An action, where `inner` reads the actions inside it. -/
def actionWithTo (inner : Parse Action) : Parse Action := fun ts =>
  match ts with
  | ⟨.mark .leftBrace, _, _⟩ :: rest =>
    (do return .block (← fuelled (actionsThrough inner)) : Parse Action) rest
  | ⟨.keyword .check, _, _⟩ :: rest => checkWith inner rest
  | ⟨.keyword .emit, _, _⟩ :: rest => emitTo place rest
  | ⟨.keyword .when, _, _⟩ :: rest => subscribe rest
  | ⟨.keyword .unwhen, _, _⟩ :: rest => unsubscribe rest
  | _ => assignmentTo place ts

/-- An action with at most `depth` actions inside each other. -/
def actionWithinTo : Nat → Parse Action
  | 0 => unexpected "expression"
  | depth + 1 => actionWithTo place (actionWithinTo depth)

/-- An action. -/
def actionTo : Parse Action := fuelled (actionWithinTo place)

/-- Actions through a closing brace. -/
def bodyTo : Parse (List Action) := fuelled (actionsThrough (actionTo place))

/-- An event, behind the keyword. -/
def eventTo : Parse Event := do
  let name ← ident "event name"
  let params ←
    if ← eat .leftParen then listThrough (ident "parameter name") .rightParen else pure []
  expect .leftBrace
  return ⟨name, params, ← bodyTo place⟩

/-- One member. -/
def memberTo : Parse Member := fun ts =>
  match ts with
  | ⟨.keyword .has, _, _⟩ :: rest => (field rest).map fun (f, rest) => (.field f.1 f.2, rest)
  | ⟨.keyword .on, _, _⟩ :: rest => (eventTo place rest).map fun (e, rest) => (.event e, rest)
  | _ => unexpected "'has', 'on' or '\x7d'" ts

/-- Members through a closing brace, at most `fuel` of them. -/
def membersThroughTo (clash? : List Member → Member → Option Refusal) :
    Nat → List Member → Parse (List Member)
  | 0, _ => unexpected "'has', 'on' or '\x7d'"
  | fuel + 1, before => do
    if ← eat .rightBrace then
      return before
    let m ← memberTo place
    match clash? before m with
    | some refusal => throw refusal
    | none => membersThroughTo clash? fuel (before ++ [m])

/-- An entity. -/
def declarationTo : Parse Declaration := do
  expectWord .entity
  let name ← ident "entity name"
  expect .leftBrace
  let ms ← fuelled fun fuel => membersThroughTo place (clash? name) fuel []
  return ⟨name, .ofList (fieldsOf ms), eventsOf ms⟩

/-- Entities through the end, at most `fuel` of them. -/
def declarationsTo : Nat → List Declaration → Parse (List Declaration)
  | 0, _ => unexpected (Token.keyword .entity).text
  | fuel + 1, before => do
    if ← atEnd then
      return before
    let d ← declarationTo place
    if before.any fun d' => d'.name == d.name then
      throw (.duplicateEntity d.name)
    declarationsTo fuel (before ++ [d])

/-- A program whose targets are read by `place`. -/
def programTo : Parse Program := do
  return ⟨← fuelled fun fuel => declarationsTo place fuel []⟩

end Targets

/-! ### The targets of a program -/

theorem actionWithinTo_slot : actionWithinTo slot = actionWithin := by
  funext depth
  induction depth with
  | zero => rfl
  | succ depth ih =>
    rw [actionWithinTo, ih]
    rfl

theorem bodyTo_slot : bodyTo slot = body := by
  unfold bodyTo actionTo
  rw [actionWithinTo_slot]
  rfl

theorem memberTo_slot : memberTo slot = member := by
  unfold memberTo eventTo
  rw [bodyTo_slot]
  rfl

theorem membersThroughTo_slot : membersThroughTo slot = membersThrough := by
  funext clash? fuel
  induction fuel with
  | zero => rfl
  | succ fuel ih =>
    funext before
    rw [membersThroughTo, memberTo_slot, ih]
    rfl

theorem declarationsTo_slot : declarationsTo slot = declarations := by
  have hdeclaration : declarationTo slot = declaration := by
    unfold declarationTo
    rw [membersThroughTo_slot]
    rfl
  funext fuel
  induction fuel with
  | zero => rfl
  | succ fuel ih =>
    funext before
    rw [declarationsTo, hdeclaration, ih]
    rfl

/-- The reader of programs takes `slot` for its targets. -/
theorem programTo_slot : programTo slot = program := by
  unfold programTo
  rw [declarationsTo_slot]
  rfl

/-! ## Readers that accept the same -/

section Accepts

variable {α β : Type}

/-- Where either reader goes through, both do, and they read the same. -/
def Accepts (p q : Parse α) : Prop := ∀ ts r, p ts = .ok r ↔ q ts = .ok r

theorem Accepts.refl (p : Parse α) : Accepts p p := fun _ _ => Iff.rfl

theorem Accepts.bind {p q : Parse α} {f g : α → Parse β} (h : Accepts p q)
    (hrest : ∀ a, Accepts (f a) (g a)) : Accepts (p >>= f) (q >>= g) := by
  rintro ts ⟨b, rest⟩
  rw [bind_eq_ok, bind_eq_ok]
  simp only [h _ _, hrest _ _ _]

theorem Accepts.after (p : Parse α) {f g : α → Parse β} (hrest : ∀ a, Accepts (f a) (g a)) :
    Accepts (p >>= f) (p >>= g) := (Accepts.refl p).bind hrest

theorem Accepts.fuelled {p q : Nat → Parse α} (h : ∀ fuel, Accepts (p fuel) (q fuel)) :
    Accepts (fuelled p) (fuelled q) := fun ts r => h (ts.length + 1) ts r

end Accepts

/-! ## Readers that commit themselves -/

/-- Whether the tokens start with a bracket or a dot. -/
def goesOn : List Spanned → Bool
  | ⟨.mark .leftBracket, _, _⟩ :: _ => true
  | ⟨.mark .dot, _, _⟩ :: _ => true
  | _ => false

theorem goesOn_cases {ts : List Spanned} (h : goesOn ts = true) :
    ∃ m start stop rest, ts = ⟨.mark m, start, stop⟩ :: rest ∧ (m = .leftBracket ∨ m = .dot) := by
  unfold goesOn at h
  split at h
  · exact ⟨_, _, _, _, rfl, .inl rfl⟩
  · exact ⟨_, _, _, _, rfl, .inr rfl⟩
  · cases h

section Commits

variable {α β : Type}

/-- What `q` reads is what `p` reads, and `q` refuses what `p` reads only in front of a bracket
or a dot. -/
structure Commits (p q : Parse α) : Prop where
  reads : ∀ ts r, q ts = .ok r → p ts = .ok r
  refuses : ∀ ts a rest, p ts = .ok (a, rest) → q ts = .ok (a, rest) ∨ goesOn rest = true

theorem Commits.refl (p : Parse α) : Commits p p := ⟨fun _ _ => id, fun _ _ _ => .inl⟩

theorem Commits.after (p : Parse α) {f g : α → Parse β} (hrest : ∀ a, Commits (f a) (g a)) :
    Commits (p >>= f) (p >>= g) := by
  constructor
  · rintro ts ⟨b, rest⟩ h
    obtain ⟨a, mid, hp, hg⟩ := bind_eq_ok.mp h
    exact bind_eq_ok.mpr ⟨a, mid, hp, (hrest a).reads _ _ hg⟩
  · intro ts b rest h
    obtain ⟨a, mid, hp, hf⟩ := bind_eq_ok.mp h
    exact ((hrest a).refuses _ _ _ hf).imp_left fun hg => bind_eq_ok.mpr ⟨a, mid, hp, hg⟩

/-- What is made of the result without reading on is made of it in both. -/
theorem Commits.bind_pure {p q : Parse α} {f : α → Parse β} (h : Commits p q)
    (hf : ∀ a, ∃ b, f a = pure b) : Commits (p >>= f) (q >>= f) := by
  constructor
  · rintro ts ⟨b, rest⟩ hq
    obtain ⟨a, mid, hq, hb⟩ := bind_eq_ok.mp hq
    exact bind_eq_ok.mpr ⟨a, mid, h.reads _ _ hq, hb⟩
  · intro ts b rest hp
    obtain ⟨a, mid, hp, hb⟩ := bind_eq_ok.mp hp
    have hmid : mid = rest := by
      obtain ⟨c, hc⟩ := hf a
      rw [hc] at hb
      cases hb
      rfl
    refine (h.refuses _ _ _ hp).imp (fun hq => bind_eq_ok.mpr ⟨a, mid, hq, hb⟩) fun hgoes => ?_
    rw [← hmid]
    exact hgoes

/-- A reader may commit itself if what follows refuses to go on with a bracket or a dot. -/
theorem Commits.accepts_bind {p q : Parse α} {f g : α → Parse β} (h : Commits p q)
    (hrest : ∀ a, Accepts (f a) (g a))
    (hstops : ∀ a ts, goesOn ts = true → ∃ r, f a ts = .error r) :
    Accepts (p >>= f) (q >>= g) := by
  rintro ts ⟨b, rest⟩
  constructor
  · intro hp
    obtain ⟨a, mid, hp, hf⟩ := bind_eq_ok.mp hp
    obtain hq | hgoes := h.refuses _ _ _ hp
    · exact bind_eq_ok.mpr ⟨a, mid, hq, (hrest a _ _).mp hf⟩
    · obtain ⟨r, hr⟩ := hstops a mid hgoes
      rw [hr] at hf
      cases hf
  · intro hq
    obtain ⟨a, mid, hq, hg⟩ := bind_eq_ok.mp hq
    exact bind_eq_ok.mpr ⟨a, mid, h.reads _ _ hq, (hrest a _ _).mpr hg⟩

theorem Commits.fuelled {p q : Nat → Parse α} (h : ∀ fuel, Commits (p fuel) (q fuel)) :
    Commits (fuelled p) (fuelled q) :=
  ⟨fun ts => (h (ts.length + 1)).reads ts, fun ts => (h (ts.length + 1)).refuses ts⟩

end Commits

/-! ### Targets -/

section Slots

variable {name : String} {start stop : Nat} {rest : List Spanned}

theorem indexedSlot_apply : indexedSlot (⟨.ident name, start, stop⟩ :: rest) =
    (slotIndex rest).map fun (index, rest) => ((name, index), rest) := by
  have hindex : (do
      if ← eat .dot then
        let _ ← ident "pool accessor"
      expect .leftBracket
      let index ← expr
      expect .rightBracket
      return (name, index) : Parse (String × Expr)) =
      slotIndex >>= fun index => pure (name, index) := by
    simp only [slotIndex, bind_assoc]
    refine congrArg (eat .dot >>= ·) (funext fun dotted => ?_)
    cases dotted <;> simp only [Bool.false_eq_true, if_true, if_false, bind_assoc, pure_bind]
  have hname : indexedSlot (⟨.ident name, start, stop⟩ :: rest) = _ := bind_ok rfl _
  rw [hname, hindex]
  cases hrest : slotIndex rest with
  | ok r => exact bind_ok hrest _
  | error r => exact bind_error hrest _

theorem comes_goesOn (ts : List Spanned) : ∃ bracket dot,
    comes .leftBracket ts = .ok (bracket, ts) ∧ comes .dot ts = .ok (dot, ts) ∧
    (bracket || dot) = goesOn ts := by
  match ts with
  | ⟨.mark m, _, _⟩ :: _ => cases m <;> exact ⟨_, _, rfl, rfl, rfl⟩
  | [] | ⟨.ident _, _, _⟩ :: _ | ⟨.keyword _, _, _⟩ :: _ | ⟨.number _, _, _⟩ :: _
  | ⟨.string _, _, _⟩ :: _ => exact ⟨_, _, rfl, rfl, rfl⟩

theorem committedSlot_apply : committedSlot (⟨.ident name, start, stop⟩ :: rest) =
    if goesOn rest then (slotIndex rest).map fun (index, rest) => ((name, some index), rest)
    else .ok ((name, none), rest) := by
  obtain ⟨bracket, dot, hbracket, hdot, hgoes⟩ := comes_goesOn rest
  have hname : committedSlot (⟨.ident name, start, stop⟩ :: rest) =
      (if bracket || dot then slotIndex >>= fun index => pure (name, some index)
        else pure (name, none) : Parse (String × Option Expr)) rest :=
    (bind_ok rfl _).trans ((bind_ok hbracket _).trans (bind_ok hdot _))
  rw [hname, hgoes]
  cases goesOn rest with
  | false => rfl
  | true =>
    cases hrest : slotIndex rest with
    | ok r => exact bind_ok hrest _
    | error r => exact bind_error hrest _

/-- An index starts with a bracket, or with the dot in front of an accessor. -/
theorem slotIndex_stops (h : goesOn rest = false) : ∃ r, slotIndex rest = .error r := by
  match rest with
  | ⟨.mark m, _, _⟩ :: _ =>
    cases m <;> first | exact ⟨_, rfl⟩ | cases h
  | [] | ⟨.ident _, _, _⟩ :: _ | ⟨.keyword _, _, _⟩ :: _ | ⟨.number _, _, _⟩ :: _
  | ⟨.string _, _, _⟩ :: _ => exact ⟨_, rfl⟩

end Slots

/-- A committed target is a whole slot, or a name with neither a bracket nor a dot behind it. -/
theorem committedSlot_eq_ok (ts : List Spanned) (name : String) (index : Option Expr)
    (rest : List Spanned) : committedSlot ts = .ok ((name, index), rest) ↔
      (∃ e, index = some e ∧ indexedSlot ts = .ok ((name, e), rest)) ∨
      (index = none ∧ ident "assignment target" ts = .ok (name, rest) ∧ goesOn rest = false) := by
  constructor
  · intro h
    obtain ⟨first, mid, hname, -⟩ := bind_eq_ok.mp h
    obtain ⟨start, stop, rfl⟩ := ident_eq_ok.mp hname
    rw [committedSlot_apply] at h
    cases hgoes : goesOn mid with
    | false =>
      rw [hgoes] at h
      cases h
      exact .inr ⟨rfl, rfl, hgoes⟩
    | true =>
      rw [hgoes] at h
      obtain ⟨⟨e, tail⟩, he, hslot⟩ := map_eq_ok.mp h
      cases hslot
      refine .inl ⟨e, rfl, ?_⟩
      rw [indexedSlot_apply, he]
      rfl
  · rintro (⟨e, rfl, h⟩ | ⟨rfl, h, hgoes⟩)
    · obtain ⟨first, mid, hname, -⟩ := bind_eq_ok.mp h
      obtain ⟨start, stop, rfl⟩ := ident_eq_ok.mp hname
      rw [indexedSlot_apply] at h
      obtain ⟨⟨e, tail⟩, he, hslot⟩ := map_eq_ok.mp h
      cases hslot
      rw [committedSlot_apply, he]
      cases hgoes : goesOn mid with
      | true => rfl
      | false =>
        obtain ⟨r, hr⟩ := slotIndex_stops hgoes
        rw [hr] at he
        cases he
    · obtain ⟨start, stop, rfl⟩ := ident_eq_ok.mp h
      rw [committedSlot_apply, hgoes]
      rfl

/-- Only a target with a bracket or a dot behind its name is read in two ways. -/
theorem slot_commits : Commits slot committedSlot := by
  constructor
  · rintro ts ⟨⟨name, index⟩, rest⟩ h
    obtain ⟨e, rfl, hindexed⟩ | ⟨rfl, hname, hgoes⟩ := (committedSlot_eq_ok _ _ _ _).mp h
    · simp only [slot, hindexed]
    · obtain ⟨start, stop, rfl⟩ := ident_eq_ok.mp hname
      obtain ⟨r, hr⟩ := slotIndex_stops hgoes
      rw [slot, indexedSlot_apply, hr]
      rfl
  · rintro ts ⟨name, index⟩ rest h
    rw [committedSlot_eq_ok]
    unfold slot at h
    split at h
    · rename_i hindexed
      cases h
      exact .inl (.inl ⟨_, rfl, hindexed⟩)
    · obtain ⟨⟨first, mid⟩, hname, hslot⟩ := map_eq_ok.mp h
      cases hslot
      cases hgoes : goesOn rest with
      | false => exact .inl (.inr ⟨rfl, hname, rfl⟩)
      | true => exact .inr rfl

/-! ### What goes on is no action -/

theorem chain_error {op? : Token → Option (Expr → Expr → Expr)} {operand : Parse Expr}
    {ts : List Spanned} {r : Refusal} (h : operand ts = .error r) :
    chain op? operand ts = .error r := bind_error h _

/-- No expression starts with a bracket or a dot. -/
theorem expr_goesOn {ts : List Spanned} (h : goesOn ts = true) :
    expr ts = .error (.expected "expression" ts) := by
  obtain ⟨m, start, stop, rest, rfl, rfl | rfl⟩ := goesOn_cases h <;>
  · show exprWith _ _ = _
    exact chain_error (chain_error (chain_error (chain_error (chain_error rfl))))

/-! ### Actions -/

section Actions

variable {place place' : Parse (String × Option Expr)}

/-- What is made of a target without reading on is made of it in both. -/
theorem Commits.bind_slot {f : String × Option Expr → Parse Action} (h : Commits place place')
    (hindexed : ∀ pool index, ∃ a, f (pool, some index) = pure a)
    (hplain : ∀ name, ∃ a, f (name, none) = pure a) : Commits (place >>= f) (place' >>= f) := by
  refine h.bind_pure ?_
  rintro ⟨name, index | index⟩
  · exact hplain name
  · exact hindexed name index

theorem assignmentTo_commits (h : Commits place place') :
    Commits (assignmentTo place) (assignmentTo place') :=
  .after _ fun _ => .after _ fun _ => h.bind_slot (fun _ _ => ⟨_, rfl⟩) fun _ => ⟨_, rfl⟩

theorem emitTo_commits (h : Commits place place') : Commits (emitTo place) (emitTo place') := by
  refine .after _ fun ⟨target, event⟩ => .after _ fun args => .after _ fun arrow => ?_
  cases arrow with
  | false => exact .refl _
  | true =>
    cases target with
    | remote entity field =>
      exact .after _ fun _ => h.bind_slot (fun _ _ => ⟨_, rfl⟩) fun _ => ⟨_, rfl⟩
    | implicit | self | named name =>
      exact h.bind_slot (fun _ _ => ⟨_, rfl⟩) fun _ => ⟨_, rfl⟩

theorem actionWithTo_goesOn {inner : Parse Action} {ts : List Spanned} (h : goesOn ts = true) :
    actionWithTo place inner ts = .error (.expected "expression" ts) := by
  have hexpr := expr_goesOn h
  obtain ⟨m, start, stop, rest, rfl, rfl | rfl⟩ := goesOn_cases h <;> exact bind_error hexpr _

theorem actionWithinTo_goesOn (depth : Nat) {ts : List Spanned} (h : goesOn ts = true) :
    actionWithinTo place depth ts = .error (.expected "expression" ts) := by
  cases depth with
  | zero => rfl
  | succ depth => exact actionWithTo_goesOn h

/-- Actions that are left in front of a bracket or a dot are not closed. -/
theorem actionsThrough_goesOn {inner : Parse Action}
    (hinner : ∀ ts, goesOn ts = true → ∃ r, inner ts = .error r) (fuel : Nat) {ts : List Spanned}
    (h : goesOn ts = true) : ∃ r, actionsThrough inner fuel ts = .error r := by
  cases fuel with
  | zero => exact ⟨_, rfl⟩
  | succ fuel =>
    obtain ⟨r, hr⟩ := hinner ts h
    have hopen : eat .rightBrace ts = .ok (false, ts) ∧ atEnd ts = .ok (false, ts) := by
      obtain ⟨m, start, stop, rest, rfl, rfl | rfl⟩ := goesOn_cases h <;> exact ⟨rfl, rfl⟩
    rw [actionsThrough, bind_ok hopen.1, if_neg Bool.false_ne_true, bind_ok hopen.2,
      if_neg Bool.false_ne_true]
    exact ⟨r, bind_error hr _⟩

/-- Among actions that are closed, it makes no difference whether each commits itself. -/
theorem actionsThrough_accepts {inner inner' : Parse Action} (h : Commits inner inner')
    (hinner : ∀ ts, goesOn ts = true → ∃ r, inner ts = .error r) (fuel : Nat) :
    Accepts (actionsThrough inner fuel) (actionsThrough inner' fuel) := by
  induction fuel with
  | zero => exact .refl _
  | succ fuel ih =>
    -- Behind an action that only one reader takes, the other actions are never closed.
    have hmore : Accepts (inner >>= fun a => actionsThrough inner fuel >>= fun as => pure (a :: as))
        (inner' >>= fun a => actionsThrough inner' fuel >>= fun as => pure (a :: as)) :=
      h.accepts_bind (fun a => ih.bind fun as => .refl _) fun a ts hgoes => by
        obtain ⟨r, hr⟩ := actionsThrough_goesOn hinner fuel hgoes
        exact ⟨r, bind_error hr _⟩
    refine .after _ fun closed => ?_
    cases closed with
    | true => exact .refl _
    | false =>
      refine .after _ fun done => ?_
      cases done with
      | true => exact .after _ fun _ => hmore
      | false => exact hmore

theorem checkWith_commits {inner inner' : Parse Action} (h : Commits inner inner') :
    Commits (checkWith inner) (checkWith inner') := by
  refine .after _ fun condition => .after _ fun colon => ?_
  cases colon with
  | true => exact h.bind_pure fun a => ⟨_, rfl⟩
  | false =>
    refine .after _ fun brace => ?_
    cases brace with
    | true => exact h.bind_pure fun a => ⟨_, rfl⟩
    | false => exact .refl _

/-- An action commits itself as its targets and the actions inside it do. -/
theorem actionWithTo_commits (hplace : Commits place place') {inner inner' : Parse Action}
    (h : Commits inner inner') (hinner : ∀ ts, goesOn ts = true → ∃ r, inner ts = .error r) :
    Commits (actionWithTo place inner) (actionWithTo place' inner') := by
  have hblock : Accepts (do return .block (← fuelled (actionsThrough inner)) : Parse Action)
      (do return .block (← fuelled (actionsThrough inner'))) :=
    (Accepts.fuelled fun fuel => actionsThrough_accepts h hinner fuel).bind fun _ => .refl _
  constructor
  · intro ts r hq
    unfold actionWithTo at hq ⊢
    split at hq
    · exact (hblock _ _).mpr hq
    · exact (checkWith_commits h).reads _ _ hq
    · exact (emitTo_commits hplace).reads _ _ hq
    · exact hq
    · exact hq
    · exact (assignmentTo_commits hplace).reads _ _ hq
  · intro ts a rest hp
    unfold actionWithTo at hp ⊢
    split at hp
    · exact .inl ((hblock _ _).mp hp)
    · exact (checkWith_commits h).refuses _ _ _ hp
    · exact (emitTo_commits hplace).refuses _ _ _ hp
    · exact .inl hp
    · exact .inl hp
    · exact (assignmentTo_commits hplace).refuses _ _ _ hp

theorem actionWithinTo_commits (h : Commits place place') (depth : Nat) :
    Commits (actionWithinTo place depth) (actionWithinTo place' depth) := by
  induction depth with
  | zero => exact .refl _
  | succ depth ih =>
    exact actionWithTo_commits h ih fun ts hgoes => ⟨_, actionWithinTo_goesOn depth hgoes⟩

end Actions

/-! ## Programs -/

section Programs

variable {place place' : Parse (String × Option Expr)}

theorem bodyTo_accepts (h : Commits place place') : Accepts (bodyTo place) (bodyTo place') :=
  .fuelled fun fuel => actionsThrough_accepts (.fuelled (actionWithinTo_commits h))
    (fun ts hgoes => ⟨_, actionWithinTo_goesOn (ts.length + 1) hgoes⟩) fuel

theorem memberTo_accepts (h : Accepts (bodyTo place) (bodyTo place')) :
    Accepts (memberTo place) (memberTo place') := by
  have hevent : Accepts (eventTo place) (eventTo place') := by
    refine .after _ fun name => .after _ fun listed => ?_
    cases listed <;> exact .after _ fun _ => .after _ fun _ => h.bind fun _ => .refl _
  rintro ts ⟨m, rest⟩
  unfold memberTo
  split
  · exact Iff.rfl
  · simp only [map_eq_ok, hevent _ _]
  · exact Iff.rfl

theorem membersThroughTo_accepts (h : Accepts (memberTo place) (memberTo place'))
    (clash? : List Member → Member → Option Refusal) (fuel : Nat) (before : List Member) :
    Accepts (membersThroughTo place clash? fuel before)
      (membersThroughTo place' clash? fuel before) := by
  induction fuel generalizing before with
  | zero => exact .refl _
  | succ fuel ih =>
    rw [membersThroughTo, membersThroughTo]
    refine .after _ fun closed => ?_
    cases closed with
    | true =>
      rw [if_pos rfl, if_pos rfl]
      exact .refl _
    | false =>
      rw [if_neg Bool.false_ne_true, if_neg Bool.false_ne_true]
      refine h.bind fun m => ?_
      cases clash? before m with
      | some refusal => exact .refl _
      | none => exact ih _

theorem declarationTo_accepts (h : Accepts (memberTo place) (memberTo place')) :
    Accepts (declarationTo place) (declarationTo place') :=
  .after _ fun _ => .after _ fun name => .after _ fun _ =>
    (Accepts.fuelled fun fuel => membersThroughTo_accepts h (clash? name) fuel []).bind
      fun _ => .refl _

theorem declarationsTo_accepts (h : Accepts (declarationTo place) (declarationTo place'))
    (fuel : Nat) (before : List Declaration) :
    Accepts (declarationsTo place fuel before) (declarationsTo place' fuel before) := by
  induction fuel generalizing before with
  | zero => exact .refl _
  | succ fuel ih =>
    rw [declarationsTo, declarationsTo]
    refine .after _ fun done => ?_
    cases done with
    | true =>
      rw [if_pos rfl, if_pos rfl]
      exact .refl _
    | false =>
      rw [if_neg Bool.false_ne_true, if_neg Bool.false_ne_true]
      refine h.bind fun d => ?_
      cases before.any fun d' => d'.name == d.name with
      | true => exact .after _ fun _ => ih _
      | false => exact ih _

/-- Programs are the same with targets that commit themselves. -/
theorem programTo_accepts (h : Commits place place') :
    Accepts (programTo place) (programTo place') :=
  (Accepts.fuelled fun fuel => declarationsTo_accepts
    (declarationTo_accepts (memberTo_accepts (bodyTo_accepts h))) fuel []).bind fun _ => .refl _

end Programs

end EntityScript.Source.Parse

namespace EntityScript

open Source Source.Parse

/-- **Going back is harmless.** A reader of programs that commits itself to a slot at a bracket
or a dot behind the name of a target, and differs in nothing else, accepts the same texts and
reads the same programs. So no target that is no whole slot of a pool, though a bracket or a dot
stands behind its name, is read as a plain name in a program. -/
theorem Program.parse_committed :
    programTo slot = program ∧
    (∀ ts name index rest, committedSlot ts = .ok ((name, index), rest) ↔
      (∃ e, index = some e ∧ indexedSlot ts = .ok ((name, e), rest)) ∨
      (index = none ∧ ident "assignment target" ts = .ok (name, rest) ∧ goesOn rest = false)) ∧
    ∀ source p, Program.parse source = .ok p ↔ (programTo committedSlot).run source = .ok p := by
  refine ⟨programTo_slot, committedSlot_eq_ok, fun source p => ?_⟩
  rw [Program.parse, ← programTo_slot, run_eq_ok, run_eq_ok]
  simp only [programTo_accepts slot_commits _ _]

/-- On its own, a name in front of a bracket that nothing closes is read as a plain name, and
refused by the reader that commits itself. -/
example : let ts := [⟨.ident "p", 0, 1⟩, ⟨.mark .leftBracket, 1, 2⟩, ⟨.number 1.0, 2, 3⟩]
    (slot ts).map Prod.fst = .ok ("p", none) ∧ (committedSlot ts).toBool = false := ⟨rfl, rfl⟩

end EntityScript
