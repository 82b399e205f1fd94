import Editorial.Proofs.Office.Events

/-!
# Channels

A channel keeps no events, only the number of the one it gets next. A poll hands out
everything from that number on and moves it past the end of the log. So what a channel
has handed out so far is one stretch of the log: it begins where the channel was first
registered and ends where the log ended at the latest poll. That takes the numbers of
the events to be their places, and it takes every other call to leave the number of the
channel alone, registering it again included.

A delivery registers the channel of its listener if need be and then polls it.

## Main results

* `HasHanded.serve` — what a channel has been handed stays one stretch of the log.
* `Alike.serve` — what a channel is handed depends on the events and its own place only.
* `channels_deliver_once` — what a channel is handed by any calls on a new log.
-/

namespace Editorial

/-- What can be asked of a log. -/
inductive LogCall where
  | append (notice : Notice)
  | register (channel : String) (onlyNew : Bool)
  | poll (channel : String)
  /-- Deliver to a listener of the channel. -/
  | deliver (channel : String) (onlyNew : Bool)
  | hasChannel (channel : String)
  | events

/-- What a log answers. -/
inductive LogReply where
  | appended (event : Event)
  | done
  | handed (events : List Event)
  | failed (failure : Failure)
  | known (there : Bool)
  | listed (events : List Event)

namespace LogCall

/-- What the call appends to the log, if it does. -/
def notice? : LogCall → Option Notice
  | .append notice => some notice
  | _ => none

/-- Whether a channel that the call registers is to get new events only. -/
def registers? (channel : String) : LogCall → Option Bool
  | .register other onlyNew | .deliver other onlyNew =>
      if other = channel then some onlyNew else none
  | _ => none

/-- Whether the call takes from the channel what that has not handed out yet. -/
def takes (channel : String) : LogCall → Bool
  | .poll other | .deliver other _ => other = channel
  | _ => false

end LogCall

namespace EventLog

/-- Answers a call. -/
def serve (log : EventLog) : LogCall → LogReply × EventLog
  | .append notice => (.appended (log.append notice).1, (log.append notice).2)
  | .register channel onlyNew => (.done, log.register channel onlyNew)
  | .poll channel =>
      match log.poll channel with
      | .error failure => (.failed failure, log)
      | .ok (events, log') => (.handed events, log')
  | .deliver channel onlyNew =>
      match log.deliver channel onlyNew with
      | .error failure => (.failed failure, log)
      | .ok (events, log') => (.handed events, log')
  | .hasChannel channel => (.known (log.hasChannel channel), log)
  | .events => (.listed log.events, log)

/-- The log after calls made one after another. -/
def after (log : EventLog) (calls : List LogCall) : EventLog :=
  calls.foldl (fun log call => (log.serve call).2) log

/-- The events that a call hands out to a channel. -/
def handed (log : EventLog) (channel : String) (call : LogCall) : List Event :=
  match (log.serve call).1 with
  | .handed events => if call.takes channel then events else []
  | _ => []

/-- All events that a channel is handed by calls made one after another. -/
def received (channel : String) : EventLog → List LogCall → List Event
  | _, [] => []
  | log, call :: calls => log.handed channel call ++ received channel (log.serve call).2 calls

theorem received_append (channel : String) (log : EventLog) (calls calls' : List LogCall) :
    log.received channel (calls ++ calls') =
      log.received channel calls ++ (log.after calls).received channel calls' := by
  induction calls generalizing log with
  | nil => rfl
  | cons call calls ih =>
      show log.handed channel call ++ received channel _ (calls ++ calls') = _
      rw [ih, ← List.append_assoc]
      rfl

theorem after_append (log : EventLog) (calls calls' : List LogCall) :
    log.after (calls ++ calls') = (log.after calls).after calls' := List.foldl_append

variable {log : EventLog} {channel : String} {call : LogCall} {place : Nat}

/-! ## Registering and polling -/

theorem events_register (log : EventLog) (channel : String) (onlyNew : Bool) :
    (log.register channel onlyNew).events = log.events := by
  unfold register
  split <;> rfl

/-- Registering gives a place to a channel that has none. -/
theorem place_register (log : EventLog) (channel : String) (onlyNew : Bool) (other : String) :
    (log.register channel onlyNew).channels.get? other =
      if other = channel then
        some ((log.channels.get? channel).getD (if onlyNew then log.nextSequence else 1))
      else log.channels.get? other := by
  unfold register Keyed.contains
  cases h : log.channels.get? channel with
  | none =>
      simp only [Option.isSome_none, Bool.false_eq_true, if_false, Keyed.get?_insert]
      rfl
  | some place =>
      by_cases hother : other = channel
      · simp [hother, h]
      · simp [hother]

/-- A channel that is registered already stays where it is. -/
theorem register_of_place (h : log.channels.get? channel = some place) (onlyNew : Bool) :
    log.register channel onlyNew = log := by
  unfold register Keyed.contains
  rw [h]
  rfl

theorem poll_of_place (h : log.channels.get? channel = some place) :
    log.serve (.poll channel) =
      (.handed (log.events.filter fun event => place ≤ event.sequence),
        { log with channels := log.channels.insert channel log.nextSequence }) := by
  simp only [serve, poll, h]

theorem poll_of_unknown (h : log.channels.get? channel = none) :
    log.serve (.poll channel) = (.failed (.argument (.unknownChannel channel)), log) := by
  simp only [serve, poll, h]

/-- A poll changes the place of its own channel only. -/
theorem place_poll (log : EventLog) {channel other : String} (hother : other ≠ channel) :
    (log.serve (.poll channel)).2.channels.get? other = log.channels.get? other := by
  cases h : log.channels.get? channel with
  | none => rw [poll_of_unknown h]
  | some place =>
      rw [poll_of_place h]
      exact Keyed.get?_insert_ne _ _ hother

theorem events_poll (log : EventLog) (channel : String) :
    (log.serve (.poll channel)).2.events = log.events := by
  cases h : log.channels.get? channel with
  | none => rw [poll_of_unknown h]
  | some place => rw [poll_of_place h]

/-- A delivery is a registration and a poll, and it does not fail. -/
theorem serve_deliver (log : EventLog) (channel : String) (onlyNew : Bool) :
    log.serve (.deliver channel onlyNew) =
      (log.register channel onlyNew).serve (.poll channel) := by
  have hplace := place_register log channel onlyNew channel
  rw [if_pos rfl] at hplace
  rw [poll_of_place hplace]
  simp only [serve, deliver, poll, hplace]

/-! ## One call -/

/-- Only what is appended is new in the log. -/
theorem events_serve (log : EventLog) (call : LogCall) :
    (log.serve call).2.events =
      log.events ++ (call.notice?.map fun notice => ⟨notice, log.nextSequence⟩).toList := by
  cases call with
  | append notice => rfl
  | hasChannel channel | events => exact (List.append_nil _).symm
  | register channel onlyNew =>
      exact (events_register log channel onlyNew).trans (List.append_nil _).symm
  | poll channel => exact (events_poll log channel).trans (List.append_nil _).symm
  | deliver channel onlyNew =>
      rw [serve_deliver, events_poll, events_register]
      exact (List.append_nil _).symm

/-- A call that takes from a channel hands out everything from the place of the channel
on, and moves that past the end. -/
theorem serve_of_takes (h : log.channels.get? channel = some place)
    (htakes : call.takes channel = true) :
    log.handed channel call = log.events.filter (fun event => place ≤ event.sequence) ∧
      (log.serve call).2.channels.get? channel = some log.nextSequence := by
  have hserve : log.serve call = log.serve (.poll channel) := by
    cases call with
    | poll other => rw [of_decide_eq_true htakes]
    | deliver other onlyNew =>
        rw [of_decide_eq_true htakes, serve_deliver, register_of_place h]
    | append | register | hasChannel | events => cases htakes
  rw [handed, hserve, htakes, poll_of_place h]
  exact ⟨rfl, Keyed.get?_insert_self ..⟩

/-- No other call hands anything out to the channel. -/
theorem handed_eq_nil (htakes : call.takes channel = false) : log.handed channel call = [] := by
  unfold handed
  rw [htakes]
  split <;> rfl

/-- Nor does it change the place of a channel that is registered. -/
theorem place_serve (h : log.channels.get? channel = some place)
    (htakes : call.takes channel = false) :
    (log.serve call).2.channels.get? channel = some place := by
  have hregister : ∀ other onlyNew,
      (log.register other onlyNew).channels.get? channel = some place := by
    intro other onlyNew
    rw [place_register]
    split
    · rename_i hother
      rw [← hother, h]
      rfl
    · exact h
  cases call with
  | append | hasChannel | events => exact h
  | register other onlyNew => exact hregister other onlyNew
  | poll other => exact (place_poll log (Ne.symm (of_decide_eq_false htakes))).trans h
  | deliver other onlyNew =>
      rw [serve_deliver, place_poll _ (Ne.symm (of_decide_eq_false htakes))]
      exact hregister other onlyNew

/-- A channel that is not registered gets nothing, and only a call that registers it
gives it a place. -/
theorem serve_of_unknown (h : log.channels.get? channel = none)
    (hregisters : call.registers? channel = none) :
    log.handed channel call = [] ∧ (log.serve call).2.channels.get? channel = none := by
  cases call with
  | append | hasChannel | events => exact ⟨rfl, h⟩
  | register other onlyNew =>
      have hother : channel ≠ other := by
        rintro rfl
        simp [LogCall.registers?] at hregisters
      exact ⟨rfl, (place_register ..).trans ((if_neg hother).trans h)⟩
  | poll other =>
      by_cases hother : other = channel
      · rw [handed, hother, poll_of_unknown h]
        exact ⟨rfl, h⟩
      · exact ⟨handed_eq_nil (decide_eq_false hother),
          (place_poll log (Ne.symm hother)).trans h⟩
  | deliver other onlyNew =>
      have hother : channel ≠ other := by
        rintro rfl
        simp [LogCall.registers?] at hregisters
      refine ⟨handed_eq_nil (decide_eq_false hother.symm), ?_⟩
      rw [serve_deliver, place_poll _ hother, place_register, if_neg hother, h]

/-- A call that registers a channel does as if the channel had been registered just
before. -/
theorem serve_register {onlyNew : Bool} (hregisters : call.registers? channel = some onlyNew) :
    log.serve call = (log.register channel onlyNew).serve call := by
  have hplace := place_register log channel onlyNew channel
  rw [if_pos rfl] at hplace
  cases call with
  | append | poll | hasChannel | events => cases hregisters
  | register other onlyNew' =>
      simp only [LogCall.registers?, Option.ite_none_right_eq_some, Option.some.injEq]
        at hregisters
      obtain ⟨rfl, rfl⟩ := hregisters
      exact congrArg (Prod.mk LogReply.done) (register_of_place hplace _).symm
  | deliver other onlyNew' =>
      simp only [LogCall.registers?, Option.ite_none_right_eq_some, Option.some.injEq]
        at hregisters
      obtain ⟨rfl, rfl⟩ := hregisters
      rw [serve_deliver, serve_deliver, register_of_place hplace]

/-! ## Numbers are places -/

theorem numbered_serve (h : Office.Numbered log) (call : LogCall) :
    Office.Numbered (log.serve call).2 := by
  unfold Office.Numbered
  rw [events_serve]
  cases call.notice? with
  | none => rwa [Option.map_none, Option.toList_none, List.append_nil]
  | some notice => exact h.append notice

theorem numbered_after (h : Office.Numbered log) (calls : List LogCall) :
    Office.Numbered (log.after calls) := by
  induction calls generalizing log with
  | nil => exact h
  | cons call calls ih => exact ih (numbered_serve h call)

/-- Of events numbered one by one, those from a number on are those past as many as were
counted before it. -/
theorem filter_eq_drop {events : List Event} {start : Nat}
    (h : events.map Event.sequence = List.range' start events.length) (passed : Nat) :
    events.filter (fun event => start + passed ≤ event.sequence) = events.drop passed := by
  induction events generalizing start passed with
  | nil => simp
  | cons event events ih =>
      rw [List.map_cons, List.length_cons, List.range'_succ, List.cons.injEq] at h
      obtain ⟨hfirst, hrest⟩ := h
      cases passed with
      | zero =>
          have hnone := ih hrest 0
          rw [List.drop_zero, List.filter_eq_self] at hnone ⊢
          refine List.forall_mem_cons.2 ⟨decide_eq_true hfirst.ge, fun other hm => ?_⟩
          have hle := of_decide_eq_true (hnone other hm)
          exact decide_eq_true (by omega)
      | succ passed =>
          rw [List.filter_cons_of_neg (by simp; omega), List.drop_succ_cons, ← ih hrest passed,
            Nat.add_right_comm, Nat.add_assoc]

/-- The number of notices among the calls is that of the new events. -/
theorem events_after (log : EventLog) (calls : List LogCall) :
    (log.after calls).events.map Event.toNotice =
      log.events.map Event.toNotice ++ calls.filterMap LogCall.notice? := by
  induction calls generalizing log with
  | nil => exact (List.append_nil _).symm
  | cons call calls ih =>
      show ((log.serve call).2.after calls).events.map Event.toNotice = _
      rw [ih, events_serve, List.filterMap_cons]
      cases call.notice? <;> simp

/-- Calls only add to the log. -/
theorem events_isPrefix (log : EventLog) (calls : List LogCall) :
    log.events <+: (log.after calls).events := by
  induction calls generalizing log with
  | nil => exact List.prefix_rfl
  | cons call calls ih =>
      exact ((events_serve log call).symm ▸ List.prefix_append ..).trans (ih _)

/-! ## What a channel has been handed -/

/-- A channel that started after `start` events has been handed those after them up to the
first `passed`, and it has its place right after these. -/
structure HasHanded (log : EventLog) (channel : String) (start passed : Nat)
    (events : List Event) : Prop where
  numbered : Office.Numbered log
  place : log.channels.get? channel = some (passed + 1)
  start_le : start ≤ passed
  passed_le : passed ≤ log.events.length
  handed : events = (log.events.take passed).drop start

variable {start passed : Nat} {events : List Event}

/-- A call that takes from the channel brings it to the end of the log, and any other
leaves it where it is. -/
theorem HasHanded.serve (h : log.HasHanded channel start passed events) (call : LogCall) :
    (log.serve call).2.HasHanded channel start
      (if call.takes channel then log.events.length else passed)
      (events ++ log.handed channel call) := by
  obtain ⟨new, hnew⟩ := events_isPrefix log [call]
  have hlength : log.events.length ≤ (log.serve call).2.events.length :=
    (congrArg List.length hnew).le.trans' (by simp)
  have htake : ∀ n ≤ log.events.length, log.events.take n = (log.serve call).2.events.take n := by
    intro n hn
    have hsplit : (log.events ++ new).take n = log.events.take n :=
      List.take_append_of_le_length hn
    rw [← hsplit, hnew]
    rfl
  cases htakes : call.takes channel with
  | true =>
      obtain ⟨hhanded, hplace⟩ := serve_of_takes h.place htakes
      refine ⟨numbered_serve h.numbered call, ?_, h.start_le.trans h.passed_le, hlength, ?_⟩
      · rw [hplace, h.numbered.nextSequence]
        rfl
      · have hpassed : start ≤ (log.events.take passed).length := by
          rw [List.length_take_of_le h.passed_le]
          exact h.start_le
        calc events ++ log.handed channel call
            = (log.events.take passed).drop start ++ log.events.drop passed := by
              rw [hhanded, h.handed, Nat.add_comm, filter_eq_drop h.numbered]
          _ = log.events.drop start := by
              rw [← List.drop_append_of_le_length hpassed, List.take_append_drop]
          _ = ((log.serve call).2.events.take log.events.length).drop start := by
              rw [← htake _ le_rfl, List.take_length]
  | false =>
      refine ⟨numbered_serve h.numbered call, place_serve h.place htakes, h.start_le,
        h.passed_le.trans hlength, ?_⟩
      rw [handed_eq_nil htakes, List.append_nil, h.handed, htake _ h.passed_le]
      rfl

/-- So it is after any calls, and where none of them took from the channel it has been
handed no more than before. -/
theorem HasHanded.after (h : log.HasHanded channel start passed events)
    (calls : List LogCall) :
    ∃ passed', (log.after calls).HasHanded channel start passed'
        (events ++ log.received channel calls) ∧
      ((∀ call ∈ calls, call.takes channel = false) → passed' = passed) := by
  induction calls generalizing log passed events with
  | nil => exact ⟨passed, by rwa [received, List.append_nil], fun _ => rfl⟩
  | cons call calls ih =>
      obtain ⟨passed', h', hsame⟩ := ih (h.serve call)
      refine ⟨passed', by rwa [List.append_assoc] at h', fun hnone => ?_⟩
      obtain ⟨hcall, hcalls⟩ := List.forall_mem_cons.1 hnone
      rw [hsame hcalls, hcall]
      rfl

/-- A call that registers a channel for the first time does so at the start of the log, or
at its end if only new events are wanted. -/
theorem hasHanded_register (hnumbered : Office.Numbered log)
    (hunknown : log.channels.get? channel = none) (onlyNew : Bool) :
    (log.register channel onlyNew).HasHanded channel
      (if onlyNew then log.events.length else 0) (if onlyNew then log.events.length else 0) [] := by
  have hplace := place_register log channel onlyNew channel
  rw [if_pos rfl, hunknown] at hplace
  refine ⟨?_, ?_, le_rfl, ?_, ?_⟩
  · unfold Office.Numbered
    rwa [events_register]
  · rw [hplace, hnumbered.nextSequence]
    cases onlyNew <;> rfl
  · rw [events_register]
    split <;> omega
  · rw [List.drop_take, Nat.sub_self, List.take_zero]

/-! ## What is of no concern to a channel -/

/-- Two logs look the same to a channel. -/
def Alike (channel : String) (log log' : EventLog) : Prop :=
  log.events = log'.events ∧ log.channels.get? channel = log'.channels.get? channel

variable {log' : EventLog}

theorem Alike.events_serve (h : Alike channel log log') (call : LogCall) :
    (log.serve call).2.events = (log'.serve call).2.events := by
  rw [EventLog.events_serve, EventLog.events_serve, nextSequence, nextSequence, h.1]

/-- They hand the channel the same, and still look the same to it. -/
theorem Alike.serve (h : Alike channel log log') (call : LogCall) :
    log.handed channel call = log'.handed channel call ∧
      Alike channel (log.serve call).2 (log'.serve call).2 := by
  have hregistered : ∀ {place log log'}, Alike channel log log' →
      log.channels.get? channel = some place →
      log.handed channel call = log'.handed channel call ∧
        (log.serve call).2.channels.get? channel = (log'.serve call).2.channels.get? channel := by
    intro place log log' h hplace
    have hplace' := h.2.symm.trans hplace
    cases htakes : call.takes channel with
    | true =>
        obtain ⟨hhanded, hnext⟩ := serve_of_takes hplace htakes
        obtain ⟨hhanded', hnext'⟩ := serve_of_takes hplace' htakes
        rw [hhanded, hhanded', hnext, hnext', nextSequence, nextSequence, h.1]
        exact ⟨rfl, rfl⟩
    | false =>
        rw [handed_eq_nil htakes, handed_eq_nil htakes, place_serve hplace htakes,
          place_serve hplace' htakes]
        exact ⟨rfl, rfl⟩
  suffices hboth : log.handed channel call = log'.handed channel call ∧
      (log.serve call).2.channels.get? channel = (log'.serve call).2.channels.get? channel from
    ⟨hboth.1, h.events_serve call, hboth.2⟩
  cases hregisters : call.registers? channel with
  | none =>
      cases hplace : log.channels.get? channel with
      | none =>
          obtain ⟨hhanded, hnone⟩ := serve_of_unknown hplace hregisters
          obtain ⟨hhanded', hnone'⟩ := serve_of_unknown (h.2.symm.trans hplace) hregisters
          rw [hhanded, hhanded', hnone, hnone']
          exact ⟨rfl, rfl⟩
      | some place => exact hregistered h hplace
  | some onlyNew =>
      have hplace := place_register log channel onlyNew channel
      have hplace' := place_register log' channel onlyNew channel
      rw [if_pos rfl] at hplace hplace'
      rw [handed, handed, serve_register hregisters,
        (serve_register hregisters : log'.serve call = _)]
      refine hregistered ⟨?_, ?_⟩ hplace
      · rw [events_register, events_register, h.1]
      · rw [hplace, hplace', h.2, nextSequence, nextSequence, h.1]

theorem Alike.received (h : Alike channel log log') (calls : List LogCall) :
    log.received channel calls = log'.received channel calls := by
  induction calls generalizing log log' with
  | nil => rfl
  | cons call calls ih =>
      obtain ⟨hhanded, halike⟩ := h.serve call
      rw [EventLog.received, EventLog.received, hhanded, ih halike]

/-- A call is of no concern to a channel if it neither appends to the log nor takes from
the channel nor registers it for the first time. -/
theorem alike_serve (happends : call.notice? = none) (htakes : call.takes channel = false)
    (hregisters : call.registers? channel = none ∨ (log.channels.get? channel).isSome) :
    Alike channel log (log.serve call).2 := by
  refine ⟨?_, ?_⟩
  · rw [events_serve, happends, Option.map_none, Option.toList_none, List.append_nil]
  · cases hplace : log.channels.get? channel with
    | some place => exact (place_serve hplace htakes).symm
    | none =>
        rw [hplace] at hregisters
        have hnone := hregisters.resolve_right Bool.false_ne_true
        exact (serve_of_unknown hplace hnone).2.symm

/-! ## All calls -/

theorem place_after_of_unknown (h : log.channels.get? channel = none) {calls : List LogCall}
    (hnone : ∀ call ∈ calls, call.registers? channel = none) :
    log.received channel calls = [] ∧ (log.after calls).channels.get? channel = none := by
  induction calls generalizing log with
  | nil => exact ⟨rfl, h⟩
  | cons call calls ih =>
      obtain ⟨hcall, hcalls⟩ := List.forall_mem_cons.1 hnone
      obtain ⟨hhanded, hplace⟩ := serve_of_unknown h hcall
      obtain ⟨hreceived, hafter⟩ := ih hplace hcalls
      exact ⟨by rw [received, hhanded, hreceived, List.append_nil], hafter⟩

/-- From the call that first registers a channel on, everything is as if the channel had
been registered just before. -/
theorem received_of_first {before : List LogCall} {first : LogCall} (later : List LogCall)
    {onlyNew : Bool} (hplace : log.channels.get? channel = none)
    (hbefore : ∀ call ∈ before, call.registers? channel = none)
    (hfirst : first.registers? channel = some onlyNew) :
    log.received channel (before ++ first :: later) =
        ((log.after before).register channel onlyNew).received channel (first :: later) ∧
      log.after (before ++ first :: later) =
        ((log.after before).register channel onlyNew).after (first :: later) := by
  have hserve : (log.after before).serve first = _ := serve_register hfirst
  refine ⟨?_, ?_⟩
  · rw [received_append, (place_after_of_unknown hplace hbefore).1, List.nil_append, received,
      handed, hserve]
    rfl
  · rw [after_append]
    exact congrArg (fun served : LogReply × EventLog => served.2.after later) hserve

end EventLog

/-- What a channel is handed by calls on a new log. A call *takes* from the channel if it is
a poll of it or a delivery to a listener of it. -/
structure DeliversOnce (capacity : Nat) (calls : List LogCall) (channel : String) : Prop where
  /-- The log holds what was appended, in order, numbered from one on. -/
  logged : ((EventLog.empty capacity).after calls).events.map Event.toNotice =
    calls.filterMap LogCall.notice?
  numbered : Office.Numbered ((EventLog.empty capacity).after calls)
  /-- A channel that nobody has registered gets nothing, and it cannot be polled. -/
  unknown : (∀ call ∈ calls, call.registers? channel = none) →
    (EventLog.empty capacity).received channel calls = [] ∧
      ((EventLog.empty capacity).after calls).hasChannel channel = false ∧
      ∃ failure, failure.kind = .invalidArgument ∧
        ((EventLog.empty capacity).after calls).serve (.poll channel) =
          (.failed failure, (EventLog.empty capacity).after calls)
  /-- One that was first registered after `before` starts there or at the start of the log.
  It has got nothing before a call takes from it, and then it has got every event from its
  start on that was logged before the latest such call, once and in order. -/
  registered : ∀ before first later onlyNew, calls = before ++ first :: later →
    (∀ call ∈ before, call.registers? channel = none) →
    first.registers? channel = some onlyNew →
    ((EventLog.empty capacity).after calls).hasChannel channel = true ∧
      ((∀ call ∈ first :: later, call.takes channel = false) →
        (EventLog.empty capacity).received channel calls = []) ∧
      ∀ mid latest rest, first :: later = mid ++ latest :: rest →
        latest.takes channel = true → (∀ call ∈ rest, call.takes channel = false) →
        (EventLog.empty capacity).received channel calls =
          (((EventLog.empty capacity).after calls).events.take
            ((before ++ mid).filterMap LogCall.notice?).length).drop
              (if onlyNew then (before.filterMap LogCall.notice?).length else 0)
  /-- Without a call that neither logs anything nor takes from the channel nor registers it
  for the first time, the channel would have got the same. -/
  unconcerned : ∀ before call later, calls = before ++ call :: later → call.notice? = none →
    call.takes channel = false →
    (call.registers? channel = none ∨
      ((EventLog.empty capacity).after before).hasChannel channel = true) →
    (EventLog.empty capacity).received channel calls =
      (EventLog.empty capacity).received channel (before ++ later)

/-- Whatever is asked of a log from its beginning on, a channel gets every event once and in
order, from where it was first registered up to where it was last polled. -/
theorem channels_deliver_once (capacity : Nat) (calls : List LogCall) (channel : String) :
    DeliversOnce capacity calls channel := by
  have hnone : (EventLog.empty capacity).channels.get? channel = none := rfl
  have hnumbered : Office.Numbered (EventLog.empty capacity) := rfl
  have hcount : ∀ calls, ((EventLog.empty capacity).after calls).events.length =
      (calls.filterMap LogCall.notice?).length := by
    intro calls
    rw [← List.length_map Event.toNotice, EventLog.events_after]
    rfl
  refine ⟨EventLog.events_after .., EventLog.numbered_after hnumbered calls, fun hunknown => ?_,
    fun before first later onlyNew hcalls hbefore hfirst => ?_,
    fun before call later hcalls happends htakes hregisters => ?_⟩
  · obtain ⟨hreceived, hplace⟩ := EventLog.place_after_of_unknown hnone hunknown
    refine ⟨hreceived, ?_, _, ?_, EventLog.poll_of_unknown hplace⟩
    · rw [EventLog.hasChannel, Keyed.contains, hplace]
      rfl
    · rfl
  · obtain ⟨hreceived, hafter⟩ := EventLog.received_of_first later hnone hbefore hfirst
    have hplace := (EventLog.place_after_of_unknown hnone hbefore).2
    have hregister := EventLog.hasHanded_register (EventLog.numbered_after hnumbered before)
      hplace onlyNew
    rw [hcount] at hregister
    rw [hcalls, hreceived, hafter]
    refine ⟨?_, fun hwaiting => ?_, fun mid latest rest hlater htakes hrest => ?_⟩
    · obtain ⟨passed, h, -⟩ := hregister.after (first :: later)
      rw [EventLog.hasChannel, Keyed.contains, h.place]
      rfl
    · obtain ⟨passed, h, hsame⟩ := hregister.after (first :: later)
      have hhanded := h.handed
      rw [hsame hwaiting, List.drop_take, Nat.sub_self, List.take_zero] at hhanded
      exact hhanded
    · obtain ⟨passed, hmid, -⟩ := hregister.after mid
      obtain ⟨passed', h, hsame⟩ := (hmid.serve latest).after rest
      have hhanded := h.handed
      have hpassed : (((EventLog.empty capacity).after before).register channel onlyNew
          |>.after mid).events.length = ((before ++ mid).filterMap LogCall.notice?).length := by
        rw [← List.length_map Event.toNotice, EventLog.events_after, EventLog.events_register,
          EventLog.events_after, List.filterMap_append]
        rfl
      rw [hsame hrest, htakes, if_pos rfl, hpassed, List.nil_append] at hhanded
      rw [hlater, EventLog.received_append, EventLog.received, EventLog.after_append,
        ← List.append_assoc]
      exact hhanded
  · rw [hcalls, EventLog.received_append, EventLog.received_append, EventLog.received,
      EventLog.handed_eq_nil htakes, List.nil_append]
    refine congrArg _ (EventLog.Alike.received ?_ later).symm
    refine EventLog.alike_serve happends htakes (hregisters.imp_right fun h => ?_)
    exact h

/-- A channel that starts with the second event, is registered again and misses nothing. -/
example :
    let note (user : String) : LogCall :=
      .append ⟨"a", .version, user, .epoch, none, [], false⟩
    ((EventLog.empty 1).received "web" [note "ann", .register "web" true, note "bob",
      .poll "mail", .deliver "web" false, note "cy", note "dan", .register "web" false,
      .poll "web", note "eve"]).map Event.sequence = [2, 3, 4] := by
  decide +kernel

end Editorial
