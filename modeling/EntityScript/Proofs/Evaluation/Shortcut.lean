import EntityScript.Evaluation

/-! # The shortcut through plain numbers

`Expr.eval` tries plain numbers first on a tree of arithmetic, and so do conditions
and indices inside an expression. `Expr.evalPlain` is evaluation without that attempt.
The attempt may end in a number, in a fault or without an answer; the first two are
what `evalPlain` gives on the same tree (`evalNumber_backed`), so the two evaluators
agree on every expression, in their values and in their faults. -/

namespace EntityScript

namespace Expr

/-- Evaluation that never tries plain numbers, neither at the root nor below. -/
def evalPlain (c : Context) : Expr → Except Fault Value
  | .literal v => .ok v
  | .var name => c.lookup name
  | .binary op left right => do
    let l ← evalPlain c left
    let r ← evalPlain c right
    op.apply l r
  | .logic op left right => do
    let l ← evalPlain c left
    if l.isNull then .ok (.bool false)
    else
      match op, ← l.condition with
      | .or, true => .ok (.bool true)
      | .and, false => .ok (.bool false)
      | _, _ => do
        let r ← evalPlain c right
        .ok (.bool (← r.condition))
  | .not e => do
    let v ← evalPlain c e
    .ok (.bool (!(← v.condition)))
  | .index pool e => do
    let items ← c.pool pool
    let v ← evalPlain c e
    let index ← v.toIndex pool
    Pool.get items pool index
  | .property target name => c.property target name

/-! ## What the attempt may answer -/

/-- The outcome `r` bears out an answer of the attempt: a number is its value, a
fault is its fault, and no answer promises nothing. -/
def Backed (r : Except Fault Value) : Except Fault (Option Float) → Prop
  | .ok (some n) => r = .ok (.number n)
  | .ok none => True
  | .error fault => r = .error fault

/-- Two numbers under an arithmetic operator give the number of `arithmetic`. -/
theorem apply_numbers {op : BinaryOp} (hop : op.isArithmetic = true) (a b : Float) :
    op.apply (.number a) (.number b) = .ok (.number (op.arithmetic a b)) := by
  match op, hop with
  | .add, _ | .sub, _ | .mul, _ | .div, _ | .mod, _ => rfl

theorem lookup_backed (c : Context) (name : String) :
    Backed (c.lookup name) ((c.lookup name).map Value.number?) := by
  cases h : c.lookup name with
  | error fault => rfl
  | ok v => cases v <;> trivial

/-- The attempt on an operator is backed if the attempts on its parts are. The left
part is looked at first in both evaluators, so the first fault is the same one. -/
theorem binary_backed {c : Context} {op : BinaryOp} {left right : Expr}
    (hop : op.isArithmetic = true)
    (hl : Backed (evalPlain c left) (evalNumber c left))
    (hr : Backed (evalPlain c right) (evalNumber c right)) :
    Backed (evalPlain c (.binary op left right)) (evalNumber c (.binary op left right)) := by
  simp only [evalNumber, hop, if_true]
  match hnl : evalNumber c left with
  | .error fault =>
    rw [hnl] at hl
    simp only [Backed] at hl
    simp only [evalPlain, hl]
    rfl
  | .ok none => trivial
  | .ok (some a) =>
    rw [hnl] at hl
    simp only [Backed] at hl
    match hnr : evalNumber c right with
    | .error fault =>
      rw [hnr] at hr
      simp only [Backed] at hr
      simp only [evalPlain, hl, hr]
      rfl
    | .ok none => trivial
    | .ok (some b) =>
      rw [hnr] at hr
      simp only [Backed] at hr
      simp only [evalPlain, hl, hr]
      exact apply_numbers hop a b

/-- Whatever the attempt answers on a tree, `evalPlain` bears it out. -/
theorem evalNumber_backed (c : Context) (e : Expr) : Backed (evalPlain c e) (evalNumber c e) := by
  induction e with
  | literal v =>
    cases v with
    | number n => rfl
    | null | bool | string | pool | entity => trivial
  | var name => exact lookup_backed c name
  | binary op left right ihl ihr =>
    by_cases hop : op.isArithmetic = true
    · exact binary_backed hop ihl ihr
    · simp only [evalNumber, hop]
      trivial
  | logic | not | index | property => trivial

/-! ## Both evaluators -/

/-- With `evalPlain` behind it, the shortcut is `evalPlain`. -/
theorem shortcut_evalPlain (c : Context) (e : Expr) :
    (shortcut c e fun _ => evalPlain c e) = evalPlain c e := by
  have h := evalNumber_backed c e
  unfold shortcut
  split
  · match hn : evalNumber c e with
    | .error fault => rw [hn] at h; exact h.symm
    | .ok none => rfl
    | .ok (some n) => rw [hn] at h; exact h.symm
  · rfl

theorem evalGeneral_eq_evalPlain (c : Context) (e : Expr) : evalGeneral c e = evalPlain c e := by
  induction e with
  | literal v => rfl
  | var name => rfl
  | binary op left right ihl ihr => simp only [evalGeneral, evalPlain, ihl, ihr]
  | logic op left right ihl ihr =>
    simp only [evalGeneral, ihl, ihr, shortcut_evalPlain]
    rfl
  | not e ih => simp only [evalGeneral, evalPlain, ih, shortcut_evalPlain]
  | index pool e ih => simp only [evalGeneral, evalPlain, ih, shortcut_evalPlain]
  | property target name => rfl

/-- **The shortcut changes no outcome.** For every expression and everything it can
read, `eval` gives the value or the very fault of `evalPlain`; a number that the
attempt finds is the value of `evalPlain`, and a fault it runs into is the fault of
`evalPlain`. -/
theorem eval_agrees_with_evalPlain (c : Context) (e : Expr) :
    eval c e = evalPlain c e ∧
      (∀ n, evalNumber c e = .ok (some n) → evalPlain c e = .ok (.number n)) ∧
      (∀ fault, evalNumber c e = .error fault → evalPlain c e = .error fault) := by
  have hb := evalNumber_backed c e
  refine ⟨?_, ?_, ?_⟩
  · unfold eval
    rw [evalGeneral_eq_evalPlain]
    exact shortcut_evalPlain c e
  · intro n hn
    rw [hn] at hb
    exact hb
  · intro fault hf
    rw [hf] at hb
    exact hb

end Expr

end EntityScript
