import EntityScript.Proofs.Call.Termination
import EntityScript.Proofs.Queue.Invariant

/-! # The mark of a call

The state has a mark that is set while a call is being carried out. Between requests it is
clear, whatever was asked and however it ended; while an event runs it is set exactly as
long as somebody waits for the result of a call (`World.call_mark_exact`). So a call that
was refused leaves nothing behind that could refuse a later one. -/

namespace EntityScript

theorem World.unmarked_steady : World.Steady fun w => w.calling = false where
  change := fun _ _ h hw => h.calling_eq.trans hw
  pop := fun _ _ _ _ hw => hw
  report := fun _ _ hw => hw
  edit := fun _ _ _ _ hw => hw

theorem World.after_unmarked (t : Table) (host : Host) (settings : Settings)
    (requests : List World.Request) :
    ((World.fresh t host settings).after requests).calling = false :=
  World.unmarked_steady.after rfl requests

theorem Message.handle_calling (m : Message) (w : World) :
    (m.handle w).2.calling = w.calling :=
  m.handle_stepwise.calling_eq

theorem World.call_calling (w : World) (target : EntityId) (event : String)
    (args : List Value) : (w.call target event args).2.calling = w.calling :=
  (Call.perform_stepwise target event args w).calling_eq

/-- The mark is set exactly while one waits for the result of a call. -/
def Machine.MarkExact (c : Machine) : Prop :=
  c.waiting.length ≤ 1 ∧ (c.world.calling = true ↔ c.waiting ≠ [])

theorem Machine.Marked.exact {c : Machine} (h : c.Marked false) : c.MarkExact := by
  rcases h with ⟨hnone, hclear⟩ | ⟨_, hone, hset⟩
  · refine ⟨by rw [hnone]; exact Nat.zero_le 1, ?_⟩
    rw [hclear, hnone]
    simp
  · refine ⟨Nat.le_of_eq hone, fun _ hnone => ?_, fun _ => hset⟩
    rw [hnone] at hone
    cases hone

/-- **A call is marked exactly while it is carried out.** Between requests no call is
marked, whatever the requests were and however they ended. While a message is handled or a
call of the host is carried out, step by step up to the end, the mark is set exactly when
somebody waits for a result, and never two do; afterwards it is clear again, in whichever
way the event ended. A call to an entity of the table made while the mark is set is refused
as nested and changes nothing at all. Where handling a message or a call has ended with
that fault, and after any requests, the mark is as before and the next call is carried
out. -/
theorem World.call_mark_exact :
    (∀ t host settings requests,
      ((World.fresh t host settings).after requests).calling = false) ∧
    (∀ w : World, w.calling = false → ∀ m,
      (∃ r, (Machine.handling m w).Reaches ⟨(m.handle w).2, .ended r, []⟩) ∧
      (∀ c, (Machine.handling m w).Reaches c → c.MarkExact) ∧
      (m.handle w).2.calling = false) ∧
    (∀ w : World, w.calling = false → ∀ target event args,
      (∃ r, (Machine.serving target event args w).Reaches
        ⟨(w.call target event args).2, .ended r, []⟩) ∧
      (∀ c, (Machine.serving target event args w).Reaches c → c.MarkExact) ∧
      (w.call target event args).2.calling = false) ∧
    (∀ (w : World) target e event args, w.calling = true → w.table.get? target = some e →
      w.call target event args = (.error (.nestedCall e.name event), w)) ∧
    (∀ w w' : World, w.calling = false →
      (∃ (m : Message) (entity event : String),
          m.handle w = (.error (.nestedCall entity event), w')) ∨
        (∃ target called args entity event,
          w.call target called args = (.error (.nestedCall entity event), w')) ∨
        (∃ requests, w' = w.after requests) →
      w'.calling = w.calling ∧ ∀ target e event args, w'.table.get? target = some e →
        w'.call target event args = Run.asCall (e.respond target event args) w') := by
  refine ⟨World.after_unmarked, ?_, ?_, ?_, ?_⟩
  · intro w hw m
    obtain ⟨r, hreaches, _⟩ := Machine.handling_reaches m w
    refine ⟨⟨r, hreaches⟩, fun c hc => ?_, (m.handle_calling w).trans hw⟩
    have hmarked := Machine.reaches_marked hc (Machine.handling_marked m w)
    rw [hw] at hmarked
    exact hmarked.exact
  · intro w hw target event args
    refine ⟨⟨_, Machine.serving_reaches target event args w⟩, fun c hc => ?_,
      (w.call_calling target event args).trans hw⟩
    have hmarked := Machine.reaches_marked hc (Machine.serving_marked target event args w)
    rw [hw] at hmarked
    exact hmarked.exact
  · intro w target e event args hw ht
    exact Call.perform_marked ht hw event args
  · intro w w' hw h
    have hclear : w'.calling = false := by
      rcases h with ⟨m, _, _, hr⟩ | ⟨target, called, args, _, _, hr⟩ | ⟨requests, rfl⟩
      · have hkept := (m.handle_calling w).trans hw
        rw [hr] at hkept
        exact hkept
      · have hkept := (w.call_calling target called args).trans hw
        rw [hr] at hkept
        exact hkept
      · exact World.unmarked_steady.after hw requests
    refine ⟨hclear.trans hw.symm, ?_⟩
    intro target e event args ht
    exact Call.perform_clear ht hclear event args

/-- An entity whose event `outer` calls `inner`, which calls `innermost`. -/
def World.nested : World where
  table := ⟨[⟨⟨0⟩, "box", .ofList [("x", .null)], ⟨[
      ⟨"outer", [], [.call .self "inner" [] "x"]⟩,
      ⟨"inner", [], [.call .self "innermost" [] "x"]⟩,
      ⟨"innermost", [], [.set (.literal (.bool true)) "x"]⟩]⟩, false⟩],
    .ofList [("box", ⟨0⟩)], 1⟩

/-- The call that `inner` makes while `outer` waits for it is refused; a call of `innermost` by
the host afterwards is carried out. -/
theorem World.call_mark_exact_nested :
    World.nested.calling = false ∧
    Message.handle ⟨⟨0⟩, "outer", []⟩ World.nested =
      (.error (.nestedCall "box" "innermost"), World.nested) ∧
    World.nested.call ⟨0⟩ "innermost" [] =
      Run.asCall (Entity.respond World.nested.table.entities[0] ⟨0⟩ "innermost" [])
        World.nested := by
  have hfault : Message.handle ⟨⟨0⟩, "outer", []⟩ World.nested =
      (.error (.nestedCall "box" "innermost"), World.nested) := rfl
  obtain ⟨_, _, _, _, hlater⟩ := World.call_mark_exact
  have hcall := (hlater World.nested World.nested rfl (.inl ⟨_, _, _, hfault⟩)).2
  exact ⟨rfl, hfault, hcall ⟨0⟩ _ "innermost" [] rfl⟩

end EntityScript
