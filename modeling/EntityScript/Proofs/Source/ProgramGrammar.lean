import EntityScript.Program
import EntityScript.Proofs.Source.Grammar

/-! # The grammar of programs

Which literal, action, event, declaration and program a list of tokens stands for. Each
constructor is one production: its tokens are those of its parts and the words and marks
between them, each once, so a derivation accounts for all tokens. The expressions are those
of `Derives .disjunction`. -/

namespace EntityScript.Source.Grammar

/-! ## Repeated and optional parts -/

section Parts

variable {α : Type}

/-- Items one behind another. -/
inductive Sequence (Item : List Token → α → Prop) : List Token → List α → Prop
  | nil : Sequence Item [] []
  | cons {ts us : List Token} {a : α} {as : List α} : Item ts a → Sequence Item us as →
    Sequence Item (ts ++ us) (a :: as)

/-- Items divided by commas, one at least. -/
inductive Divided (Item : List Token → α → Prop) : List Token → List α → Prop
  | last {ts : List Token} {a : α} : Item ts a → Divided Item ts [a]
  | cons {ts us : List Token} {a : α} {as : List α} : Item ts a → Divided Item us as →
    Divided Item (ts ++ .mark .comma :: us) (a :: as)

/-- Items divided by commas between two marks. There may be none. -/
inductive Enclosed (Item : List Token → α → Prop) (opening closing : Mark) :
    List Token → List α → Prop
  | empty : Enclosed Item opening closing [.mark opening, .mark closing] []
  | items {ts : List Token} {as : List α} : Divided Item ts as →
    Enclosed Item opening closing (.mark opening :: (ts ++ [.mark closing])) as

/-- What may be left out. -/
inductive Optional (Item : List Token → α → Prop) : List Token → Option α → Prop
  | absent : Optional Item [] none
  | present {ts : List Token} {a : α} : Item ts a → Optional Item ts (some a)

end Parts

/-- A name. -/
inductive Name : List Token → String → Prop
  | intro (name : String) : Name [.ident name] name

/-! ## Literals -/

/-- The tokens stand for the initial value of a field. -/
inductive Literal : List Token → Value → Prop
  | number (n : Float) : Literal [.number n] (.number n)
  | negative (n : Float) : Literal [.mark .minus, .number n] (.number (-n))
  | string (s : String) : Literal [.string s] (.string s)
  | true : Literal [.keyword .trueLiteral] (.bool true)
  | false : Literal [.keyword .falseLiteral] (.bool false)
  | null : Literal [.keyword .nullLiteral] .null
  | pool {ts : List Token} {vs : List Value} :
    Enclosed Literal .leftBracket .rightBracket ts vs →
    Literal (.keyword .pool :: ts) (.pool vs)

/-! ## Actions -/

/-- Arguments in parentheses. -/
abbrev Arguments : List Token → List Expr → Prop :=
  Enclosed (Derives .disjunction) .leftParen .rightParen

/-- A place to assign to: a name, or a slot of a pool. A second name before the index is
left out. -/
inductive Slot : List Token → String × Option Expr → Prop
  | name (name : String) : Slot [.ident name] (name, none)
  | index (pool : String) {ts : List Token} {e : Expr} : Derives .disjunction ts e →
    Slot (.ident pool :: .mark .leftBracket :: (ts ++ [.mark .rightBracket])) (pool, some e)
  | memberIndex (pool member : String) {ts : List Token} {e : Expr} :
    Derives .disjunction ts e →
    Slot (.ident pool :: .mark .dot :: .ident member :: .mark .leftBracket ::
      (ts ++ [.mark .rightBracket])) (pool, some e)

/-- To whom something is emitted, and which event. -/
inductive Destination : List Token → Target × String → Prop
  | implicit (event : String) : Destination [.ident event] (.implicit, event)
  | self (event : String) :
    Destination [.ident "self", .mark .dot, .ident event] (.self, event)
  | named {name : String} (event : String) : name ≠ "self" →
    Destination [.ident name, .mark .dot, .ident event] (.named name, event)
  | remote (entity field event : String) :
    Destination [.ident entity, .mark .dot, .ident field, .mark .dot, .ident event]
      (.remote entity field, event)

/-- Whose event is handled by which event. -/
inductive Subscribed : List Token → String × String × String → Prop
  | intro (target event handler : String) :
    Subscribed [.ident target, .mark .dot, .ident event, .mark .colon, .ident handler]
      (target, event, handler)

/-- The tokens stand for the action. -/
inductive DerivesAction : List Token → Action → Prop
  | block {ts : List Token} {body : List Action} : Sequence DerivesAction ts body →
    DerivesAction (.mark .leftBrace :: (ts ++ [.mark .rightBrace])) (.block body)
  | guard {ts : List Token} {e : Expr} : Derives .disjunction ts e →
    DerivesAction (.keyword .check :: ts) (.guard e)
  | check {ts us : List Token} {e : Expr} {a : Action} : Derives .disjunction ts e →
    DerivesAction us a →
    DerivesAction (.keyword .check :: (ts ++ .mark .colon :: us)) (.check e a)
  | checkBlock {ts us : List Token} {e : Expr} {body : List Action} :
    Derives .disjunction ts e → Sequence DerivesAction us body →
    DerivesAction (.keyword .check :: (ts ++ .mark .leftBrace :: (us ++ [.mark .rightBrace])))
      (.check e (.block body))
  | emit {ts us : List Token} {target : Target} {event : String} {args : Option (List Expr)} :
    Destination ts (target, event) → Optional Arguments us args →
    DerivesAction (.keyword .emit :: (ts ++ us)) (.emit target event (args.getD []))
  | call {ts us vs : List Token} {target : Target} {event : String}
    {args : Option (List Expr)} {field : String} : Destination ts (target, event) →
    (∀ entity pool, target ≠ .remote entity pool) → Optional Arguments us args →
    Slot vs (field, none) →
    DerivesAction (.keyword .emit :: (ts ++ (us ++ .mark .arrow :: vs)))
      (.call target event (args.getD []) field)
  | callIndexed {ts us vs : List Token} {target : Target} {event : String}
    {args : Option (List Expr)} {pool : String} {index : Expr} :
    Destination ts (target, event) → (∀ entity pool, target ≠ .remote entity pool) →
    Optional Arguments us args → Slot vs (pool, some index) →
    DerivesAction (.keyword .emit :: (ts ++ (us ++ .mark .arrow :: vs)))
      (.callIndexed target event (args.getD []) pool index)
  | subscribe {ts us : List Token} {target event handler : String}
    {args : Option (List Expr)} : Subscribed ts (target, event, handler) →
    Optional Arguments us args →
    DerivesAction (.keyword .when :: (ts ++ us)) (.subscribe target event handler args)
  | unsubscribe {ts : List Token} {target event handler : String} :
    Subscribed ts (target, event, handler) →
    DerivesAction (.keyword .unwhen :: ts) (.unsubscribe target event handler)
  | set {ts us : List Token} {e : Expr} {name : String} : Derives .disjunction ts e →
    Slot us (name, none) → DerivesAction (ts ++ .mark .arrow :: us) (.set e name)
  | setIndexed {ts us : List Token} {e index : Expr} {pool : String} :
    Derives .disjunction ts e → Slot us (pool, some index) →
    DerivesAction (ts ++ .mark .arrow :: us) (.setIndexed e pool index)

/-- Only a block stands for a block. -/
theorem DerivesAction.of_block {ts : List Token} {body : List Action}
    (h : DerivesAction ts (.block body)) : ∃ us,
      ts = .mark .leftBrace :: (us ++ [.mark .rightBrace]) ∧ Sequence DerivesAction us body := by
  cases h with
  | block hbody => exact ⟨_, rfl, hbody⟩

/-! ## Entities -/

/-- The tokens stand for the event. -/
inductive DerivesEvent : List Token → Event → Prop
  | intro (name : String) {ts us : List Token} {params : Option (List String)}
    {body : List Action} : Optional (Enclosed Name .leftParen .rightParen) ts params →
    Sequence DerivesAction us body →
    DerivesEvent (.keyword .on :: .ident name ::
      (ts ++ .mark .leftBrace :: (us ++ [.mark .rightBrace]))) ⟨name, params.getD [], body⟩

/-- The tokens stand for fields and events in any order. -/
inductive Members : List Token → List (String × Value) → List Event → Prop
  | nil : Members [] [] []
  | field (name : String) {ts us : List Token} {v : Value} {fs : List (String × Value)}
    {es : List Event} : Literal ts v → Members us fs es →
    Members (.keyword .has :: .ident name :: .mark .colon :: (ts ++ us)) ((name, v) :: fs) es
  | event {ts us : List Token} {e : Event} {fs : List (String × Value)} {es : List Event} :
    DerivesEvent ts e → Members us fs es → Members (ts ++ us) fs (e :: es)

/-- The tokens stand for the declaration. -/
inductive DerivesDeclaration : List Token → Declaration → Prop
  | intro (name : String) {ts : List Token} {fields : Scope} {events : List Event} :
    Members ts fields.entries events →
    DerivesDeclaration (.keyword .entity :: .ident name :: .mark .leftBrace ::
      (ts ++ [.mark .rightBrace])) ⟨name, fields, events⟩

/-- The tokens stand for the program. -/
def DerivesProgram (ts : List Token) (p : Program) : Prop :=
  Sequence DerivesDeclaration ts p.declarations

end EntityScript.Source.Grammar
