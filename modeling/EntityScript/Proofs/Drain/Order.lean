import EntityScript.Dispatch.Cycle
import EntityScript.Proofs.Dispatch.Change
import EntityScript.Proofs.Send.FanOut

/-! # First come, first served

A running event does one thing to the queue: it puts messages behind it
(`World.Changes.queue_grows`). A drain is looked at as a list of turns (`World.turns`): in
each turn the first message is taken and handled, and a fault ends the turn and is
reported. Whichever turns end in a fault, the messages handled and those still waiting
are, in order, those that were waiting at the start and those sent since
(`World.drain_in_order`). -/

namespace EntityScript

/-! ## What a running event does to the queue -/

namespace Queue

/-- Add messages at the end, one after another. -/
def pushAll (q : Queue) (ms : List Message) : Queue := ms.foldl push q

theorem pushAll_append (q : Queue) (ms ns : List Message) :
    q.pushAll (ms ++ ns) = (q.pushAll ms).pushAll ns :=
  List.foldl_append

theorem pending_pushAll (q : Queue) (ms : List Message) :
    (q.pushAll ms).pending = q.pending ++ ms := by
  induction ms generalizing q with
  | nil => exact (List.append_nil _).symm
  | cons m ms ih =>
    have hrest : ((q.push m).pushAll ms).pending = q.pending ++ [m] ++ ms := ih (q.push m)
    rw [List.append_assoc] at hrest
    exact hrest

/-- One queue comes from another by adding messages. -/
def GrowsTo (q q' : Queue) : Prop := ∃ sent, q' = q.pushAll sent

theorem GrowsTo.refl (q : Queue) : q.GrowsTo q := ⟨[], rfl⟩

theorem GrowsTo.push (q : Queue) (m : Message) : q.GrowsTo (q.push m) := ⟨[m], rfl⟩

theorem GrowsTo.trans {q₁ q₂ q₃ : Queue} (h : q₁.GrowsTo q₂) (h' : q₂.GrowsTo q₃) :
    q₁.GrowsTo q₃ := by
  obtain ⟨ms, rfl⟩ := h
  obtain ⟨ns, rfl⟩ := h'
  exact ⟨ms ++ ns, (pushAll_append q₁ ms ns).symm⟩

theorem GrowsTo.eq_pushAll {q q' : Queue} (h : q.GrowsTo q') :
    q' = q.pushAll (q'.pending.drop q.pending.length) := by
  obtain ⟨sent, rfl⟩ := h
  rw [pending_pushAll, List.drop_left]

/-- Sending adds messages, whether or not it ends in a fault. -/
theorem send_grows (t : Table) (subs : Subscriptions) (q : Queue) (m : Message) :
    q.GrowsTo (q.send t subs m).2 := by
  refine send_induction t subs
    (fun q m => q.GrowsTo (q.send t subs m).2)
    (fun args ss q => q.GrowsTo (spread t subs args ss q).2) ?_ ?_ ?_ ?_ ?_ ?_ ?_ q m
  · intro q m hq
    rw [send_held hq]; exact .refl q
  · intro q m hq hR
    rw [send_new hq]; exact (GrowsTo.push q m).trans hR
  · intro args q
    exact .refl q
  · intro args s ss q fault hm
    rw [spread_error hm]; exact .refl q
  · intro args s ss q hm hR
    rw [spread_silent hm]; exact hR
  · intro args s ss q b fault hm hP hb
    rw [spread_stopped hm hb]; exact hP
  · intro args s ss q b hm hP hb hR
    rw [spread_told hm hb]; exact hP.trans hR

end Queue

theorem World.Changes.queue_grows {w w' : World} (h : World.Changes w w') :
    w.queue.GrowsTo w'.queue := by
  refine h.keeps (P := fun x => w.queue.GrowsTo x.queue) ?_ (.refl _)
  intro x x' hc hx
  cases hc with
  | send m => exact hx.trans (Queue.send_grows x.table x.subscriptions x.queue m)
  | assign | destroy | copy | subscribe | unsubscribe | host => exact hx

theorem Run.Via.queue_grows {α : Type} {r : Run α} {w : World} (h : r.Stepwise w) :
    w.queue.GrowsTo (r w).2.queue :=
  World.Changes.queue_grows h

/-! ## What a running event reports -/

/-- The reports of faults in the transcript. -/
def Host.faultReports (h : Host) : List Notice := h.transcript.filter Notice.reportsFault

theorem Host.Used.faultReports_eq {h h' : Host} (hu : h.Used h') :
    h'.faultReports = h.faultReports := by
  obtain ⟨written, htranscript, hwritten⟩ := hu
  have hnone : written.filter Notice.reportsFault = [] := by
    rw [List.filter_eq_nil_iff]
    intro n hn
    rw [hwritten n hn]
    exact Bool.false_ne_true
  rw [faultReports, htranscript, List.filter_append, hnone, List.append_nil, faultReports]

theorem World.Changes.faultReports_eq {w w' : World} (h : World.Changes w w') :
    w'.host.faultReports = w.host.faultReports := by
  refine h.keeps (P := fun x => x.host.faultReports = w.host.faultReports) ?_ rfl
  intro x x' hc hx
  cases hc with
  | host hu => exact hu.faultReports_eq.trans hx
  | send | assign | destroy | copy | subscribe | unsubscribe => exact hx

/-- The line in which an incident is reported, as an entry of the transcript. -/
def Incident.notice (i : Incident) : Notice := .diagnostic i.line

theorem Incident.reportsFault_notice (i : Incident) : i.notice.reportsFault = true := by
  have hhead : "[Runtime Error] ".toList <+: "[Runtime Error] Entity '".toList := by decide
  have hline : "[Runtime Error] ".toList <+: i.line.toList := by
    unfold line
    simp only [String.toList_append, List.append_assoc]
    exact hhead.trans (List.prefix_append _ _)
  exact List.isPrefixOf_iff_prefix.mpr hline

/-! ## Turns -/

/-- One turn of a drain: the message that was taken from the queue, and the state in which
it is handled. -/
structure Turn where
  message : Message
  start : World

namespace Turn

def outcome (t : Turn) : Except Fault Unit × World := t.message.handle t.start

/-- The messages that were sent meanwhile. -/
def sent (t : Turn) : List Message :=
  t.outcome.2.queue.pending.drop t.start.queue.pending.length

/-- The fault in which the turn ended, with the entity and event that it befell. -/
def incident? (t : Turn) : Option Incident :=
  match t.outcome with
  | (.ok _, _) => none
  | (.error fault, w) => some ⟨w.nameOf t.message.target, t.message.event, fault⟩

/-- The state after the turn, in which a fault is reported. -/
def finish (t : Turn) : World :=
  match t.incident? with
  | none => t.outcome.2
  | some incident => t.outcome.2.report incident.line

theorem changes (t : Turn) : World.Changes t.start t.outcome.2 := t.message.handle_stepwise

theorem finish_queue (t : Turn) : t.finish.queue = t.outcome.2.queue := by
  unfold finish
  split <;> rfl

theorem queue_eq_pushAll (t : Turn) : t.finish.queue = t.start.queue.pushAll t.sent := by
  rw [finish_queue]
  exact t.changes.queue_grows.eq_pushAll

theorem pending_finish (t : Turn) :
    t.finish.queue.pending = t.start.queue.pending ++ t.sent := by
  rw [queue_eq_pushAll, Queue.pending_pushAll]

theorem faultReports_finish (t : Turn) :
    t.finish.host.faultReports =
      t.start.host.faultReports ++ t.incident?.toList.map Incident.notice := by
  have hsame := t.changes.faultReports_eq
  cases hi : t.incident? with
  | none =>
    have hfinish : t.finish = t.outcome.2 := by rw [finish, hi]
    rw [hfinish, hsame]
    exact (List.append_nil _).symm
  | some incident =>
    have hfinish : t.finish.host = t.outcome.2.host.note incident.notice := by
      rw [finish, hi]
      rfl
    have hreport : [incident.notice].filter Notice.reportsFault = [incident.notice] :=
      List.filter_cons_of_pos incident.reportsFault_notice
    rw [hfinish, Host.faultReports, Host.note, List.filter_append, hreport]
    exact congrArg (· ++ [incident.notice]) hsame

end Turn

namespace World

/-- The turn that comes next; none if the queue is empty. -/
def turn? (w : World) : Option Turn :=
  w.queue.pop?.map fun (m, rest) => ⟨m, { w with queue := rest }⟩

/-- The turns of a drain of at most `budget` messages. -/
def turns (w : World) : Nat → List Turn
  | 0 => []
  | budget + 1 =>
    match w.turn? with
    | none => []
    | some t => t :: t.finish.turns budget

theorem step_eq (w : World) : w.step = w.turn?.map fun t => (t.incident?, t.finish) := by
  unfold step turn?
  cases w.queue.pop? with
  | none => rfl
  | some taken =>
    obtain ⟨m, rest⟩ := taken
    simp only [Option.map_some, Turn.finish, Turn.incident?, Turn.outcome]
    cases hr : m.handle { w with queue := rest } with
    | mk result w₁ => cases result <;> rfl

theorem pending_of_turn {w : World} {t : Turn} (h : w.turn? = some t) :
    w.queue.pending = t.message :: t.start.queue.pending := by
  obtain ⟨⟨m, rest⟩, hpop, rfl⟩ := Option.map_eq_some_iff.mp h
  exact (Queue.pop?_eq_some_iff.mp hpop).1

theorem host_of_turn {w : World} {t : Turn} (h : w.turn? = some t) : t.start.host = w.host := by
  obtain ⟨_, _, rfl⟩ := Option.map_eq_some_iff.mp h
  rfl

theorem pending_of_no_turn {w : World} (h : w.turn? = none) : w.queue.pending = [] := by
  have hpop : w.queue.pop? = none := Option.map_eq_none_iff.mp h
  unfold Queue.pop? at hpop
  split at hpop
  · assumption
  · cases hpop

/-! ## Drains -/

section Drain

variable {w : World} {t : Turn} {budget : Nat} {report : CycleReport}

theorem turns_none (h : w.turn? = none) : w.turns (budget + 1) = [] := by rw [turns, h]

theorem turns_some (h : w.turn? = some t) :
    w.turns (budget + 1) = t :: t.finish.turns budget := by
  rw [turns, h]

theorem drainFrom_none (h : w.turn? = none) : drainFrom (budget + 1) report w = (report, w) := by
  rw [drainFrom, step_eq, h]
  rfl

theorem drainFrom_some (h : w.turn? = some t) :
    drainFrom (budget + 1) report w = drainFrom budget (report.add t.incident?) t.finish := by
  rw [drainFrom, step_eq, h]
  rfl

end Drain

theorem drainFrom_report (budget : Nat) (report : CycleReport) (w : World) :
    (drainFrom budget report w).1 = ⟨report.processed + (w.turns budget).length,
      report.incidents ++ (w.turns budget).filterMap Turn.incident?⟩ := by
  induction budget generalizing report w with
  | zero => simp [drainFrom, turns]
  | succ budget ih =>
    cases h : w.turn? with
    | none => simp [drainFrom_none h, turns_none h]
    | some t =>
      rw [drainFrom_some h, turns_some h, ih]
      cases hi : t.incident? <;> simp [CycleReport.add, hi] <;> omega

theorem drainFrom_state (budget : Nat) (report : CycleReport) (w : World) :
    (drainFrom budget report w).2 = ((w.turns budget).getLast?.map Turn.finish).getD w := by
  induction budget generalizing report w with
  | zero => rfl
  | succ budget ih =>
    cases h : w.turn? with
    | none => rw [drainFrom_none h, turns_none h]; rfl
    | some t =>
      rw [drainFrom_some h, turns_some h, ih, List.getLast?_cons]
      cases (t.finish.turns budget).getLast? <;> rfl

/-- What was handled and what is waiting is what was waiting and what was sent. -/
theorem drainFrom_order (budget : Nat) (report : CycleReport) (w : World) :
    (w.turns budget).map Turn.message ++ (drainFrom budget report w).2.queue.pending =
      w.queue.pending ++ (w.turns budget).flatMap Turn.sent := by
  induction budget generalizing report w with
  | zero => simp [drainFrom, turns]
  | succ budget ih =>
    cases h : w.turn? with
    | none => simp [drainFrom_none h, turns_none h]
    | some t =>
      -- the message of the turn leaves the front, and what the turn sent is behind the others
      have hrest := ih (report.add t.incident?) t.finish
      rw [t.pending_finish, List.append_assoc] at hrest
      rw [drainFrom_some h, turns_some h, pending_of_turn h, List.map_cons, List.flatMap_cons,
        List.cons_append, hrest, List.cons_append]

theorem drainFrom_faultReports (budget : Nat) (report : CycleReport) (w : World) :
    (drainFrom budget report w).2.host.faultReports = w.host.faultReports ++
      ((w.turns budget).filterMap Turn.incident?).map Incident.notice := by
  induction budget generalizing report w with
  | zero => simp [drainFrom, turns]
  | succ budget ih =>
    cases h : w.turn? with
    | none => simp [drainFrom_none h, turns_none h]
    | some t =>
      rw [drainFrom_some h, turns_some h, ih, t.faultReports_finish, host_of_turn h]
      cases hi : t.incident? <;> simp [hi]

/-- A drain stops before its budget is used up only when nothing is waiting. -/
theorem drainFrom_idle (budget : Nat) (report : CycleReport) (w : World)
    (h : (w.turns budget).length < budget) : (drainFrom budget report w).2.queue.pending = [] := by
  induction budget generalizing report w with
  | zero => cases h
  | succ budget ih =>
    cases ht : w.turn? with
    | none => rw [drainFrom_none ht]; exact pending_of_no_turn ht
    | some t =>
      rw [turns_some ht, List.length_cons] at h
      rw [drainFrom_some ht]
      exact ih _ _ (by omega)

/-- **Messages are handled in the order in which they came, each once, whichever of them
fault.** An action, however it ends and with the calls that it makes, adds messages behind
the queue and does nothing else to it. So after any number of turns of a drain, the
messages handled and then those waiting are those that were waiting at the start and then
those sent in these turns, in the order of sending. A drain ends when nothing is waiting;
it has then handled as many messages as were waiting and were sent meanwhile. Its report
has one incident for each turn that ended in a fault, in order, and the transcript one
line for each incident. -/
theorem drain_in_order (w : World) :
    (∀ (f : Frame) (a : Action), ∃ sent,
      (f.execute Call.perform a w).2.queue = w.queue.pushAll sent ∧
      (f.execute Call.perform a w).2.queue.pending = w.queue.pending ++ sent) ∧
    ∀ budget,
      let turns := w.turns budget
      let report := (w.drain budget).1
      let after := (w.drain budget).2
      after = (turns.getLast?.map Turn.finish).getD w ∧
      (∀ t ∈ turns, t.finish.queue = t.start.queue.pushAll t.sent) ∧
      turns.map Turn.message ++ after.queue.pending =
        w.queue.pending ++ turns.flatMap Turn.sent ∧
      report.processed = turns.length ∧
      report.incidents = turns.filterMap Turn.incident? ∧
      after.host.faultReports = w.host.faultReports ++ report.incidents.map Incident.notice ∧
      (report.processed < budget → after.queue.pending = []) ∧
      (after.queue.pending = [] →
        report.processed = w.queue.pending.length + (turns.flatMap Turn.sent).length) := by
  refine ⟨?_, ?_⟩
  · intro f a
    obtain ⟨sent, hsent⟩ := (f.execute_stepwise Call.perform_stepwise a).queue_grows
    exact ⟨sent, hsent, by rw [hsent, Queue.pending_pushAll]⟩
  · intro budget turns report after
    have horder : turns.map Turn.message ++ after.queue.pending =
        w.queue.pending ++ turns.flatMap Turn.sent := drainFrom_order budget {} w
    have hreport : report = ⟨turns.length, turns.filterMap Turn.incident?⟩ := by
      have h := drainFrom_report budget {} w
      simp only [Nat.zero_add, List.nil_append] at h
      exact h
    have hprocessed : report.processed = turns.length := by rw [hreport]
    have hincidents : report.incidents = turns.filterMap Turn.incident? := by rw [hreport]
    refine ⟨drainFrom_state budget {} w, fun t _ => t.queue_eq_pushAll, horder, hprocessed,
      hincidents, ?_, ?_, ?_⟩
    · rw [hincidents]
      exact drainFrom_faultReports budget {} w
    · intro hlt
      rw [hprocessed] at hlt
      exact drainFrom_idle budget {} w hlt
    · intro hempty
      rw [hempty, List.append_nil] at horder
      have hlength := congrArg List.length horder
      rw [List.length_map, List.length_append] at hlength
      rw [hprocessed, hlength]

/-- An entity with a message that faults, and behind it one that sends another. -/
def stumble : World where
  table := ⟨[⟨⟨0⟩, "walker", .empty, ⟨[⟨"trip", [], [.set (.var "nowhere") "x"]⟩,
      ⟨"go", [], [.emit .self "rest" []]⟩]⟩, false⟩], .ofList [("walker", ⟨0⟩)], 1⟩
  queue := (Queue.empty.push ⟨⟨0⟩, "trip", []⟩).push ⟨⟨0⟩, "go", []⟩

/-- All three messages are handled, and the one fault is reported. -/
theorem drain_in_order_stumble :
    (stumble.turns 4).map (fun t => t.message.event) = ["trip", "go", "rest"] ∧
    (stumble.drain 4).1.incidents.map Incident.event = ["trip"] ∧
    (stumble.drain 4).2.queue.pending = [] ∧
    (stumble.drain 4).2.host.faultReports.length = 1 ∧
    (stumble.drain 4).1.processed =
      stumble.queue.pending.length + ((stumble.turns 4).flatMap Turn.sent).length := by
  obtain ⟨_, _, _, _, _, hreports, hends, hcount⟩ := (drain_in_order stumble).2 4
  have hempty := hends (by decide)
  refine ⟨rfl, rfl, hempty, ?_, hcount hempty⟩
  rw [hreports]
  rfl

end World

end EntityScript
