import Z4jCelery.Engine.EventQueue.Pipeline
import Z4jCelery.Events.Broker.PerTask
/-!
# From a transition to the consumer

Threads fire signals, the monitor's thread dispatches messages, and both pass
events to the one sink. In every run each signal and each element of a message
reaches the consumer as at most one event, of its kind and about its task; in the
order of the signals, and of the elements; and what does not reach it waits, is
counted, or had no open loop to go to (`captured`).
-/

namespace Z4jCelery.Engine.Captured

open Py Z4jCelery.Core Events Mapper Lib EventQueue
open Signals (Signal)
open Broker (Handler Body Delivery Monitor)

/-! ## Signals -/

/-- The kind of the event that a signal has. -/
def signal_kind : Signal → EventKind
  | .received _ => .task_received
  | .prerun .. => .task_started
  | .postrun .. => .task_succeeded
  | .failure _ => .task_failed
  | .retry .. => .task_retried
  | .revoked .. => .task_revoked

/-- The id of the task that a signal is about. -/
def signal_task_id (env : Signals.Env) : Signal → Except Exn Val
  | .received request => (Signals.request_id request).map fun id => .str (env.py.strOf id)
  | .prerun _ task_id _ _ _ => .ok (Signals.task_id_of env task_id)
  | .postrun _ task_id _ _ _ => .ok (Signals.task_id_of env task_id)
  | .failure f => .ok (Signals.task_id_of env f.task_id)
  | .retry _ request _ _ task_id =>
    (Signals.request_id request).map fun id => .str (env.py.strOf ((id.orElse task_id).orElse (.str "")))
  | .revoked _ request _ _ _ => (Signals.request_id request).map fun id => .str (env.py.strOf id)

theorem reported_shaped {env : Signals.Env} {signal : Signal} {ev : Event} (h : Signals.reported env signal = some ev) :
    ∃ id, signal_task_id env signal = .ok id ∧ Made env.event (signal_kind signal) id ev := by
  obtain ⟨build, hbuild, hev⟩ := Option.bind_eq_some_iff.1 h
  obtain ⟨built, rfl, hmade⟩ := except_bind_eq_ok.1 (toOption_eq_some.1 hev)
  suffices hshaped : ∃ id, signal_task_id env signal = .ok id ∧ Shaped (signal_kind signal) id built by
    obtain ⟨id, hid, hshaped⟩ := hshaped
    exact ⟨id, hid, built, hshaped, hmade⟩
  cases signal with
  | received request =>
    rw [Signals.built] at hbuild
    split at hbuild
    · cases hbuild
    · obtain ⟨id, hid, hev⟩ := except_bind_eq_ok.1 (Option.some.inj hbuild)
      obtain ⟨_, -, hev⟩ := except_bind_eq_ok.1 hev
      obtain ⟨_, -, hev⟩ := except_bind_eq_ok.1 hev
      obtain ⟨_, -, hev⟩ := except_bind_eq_ok.1 hev
      obtain ⟨_, -, hev⟩ := except_bind_eq_ok.1 hev
      obtain ⟨_, -, hev⟩ := except_bind_eq_ok.1 hev
      obtain ⟨_, -, hev⟩ := except_bind_eq_ok.1 hev
      obtain ⟨_, -, hev⟩ := except_bind_eq_ok.1 hev
      exact ⟨_, by rw [signal_task_id, hid]; rfl, received_shaped hev⟩
  | prerun sender task_id task args kwargs =>
    obtain ⟨_, -, hev⟩ := except_bind_eq_ok.1 (Option.some.inj hbuild)
    exact ⟨_, rfl, started_shaped hev⟩
  | postrun sender task_id task retval state =>
    rw [Signals.built] at hbuild
    split at hbuild
    · cases hbuild
    · exact ⟨_, rfl, succeeded_shaped (Option.some.inj hbuild)⟩
  | failure f =>
    obtain ⟨exception, -, hev⟩ := Option.map_eq_some_iff.1 hbuild
    obtain ⟨_, -, hev⟩ := except_bind_eq_ok.1 hev
    exact ⟨_, rfl, failed_shaped hev⟩
  | retry sender request reason einfo task_id =>
    obtain ⟨id, hid, hev⟩ := except_bind_eq_ok.1 (Option.some.inj hbuild)
    exact ⟨_, by rw [signal_task_id, hid]; rfl, retried_shaped hev⟩
  | revoked sender request terminated signum expired =>
    obtain ⟨id, hid, hev⟩ := except_bind_eq_ok.1 (Option.some.inj hbuild)
    exact ⟨_, by rw [signal_task_id, hid]; rfl, revoked_shaped hev⟩

/-! ## The machine -/

/-- What an event was captured from; nothing reads it. -/
inductive Origin where
  | signal (s : Signal)
  | message (h : Handler) (event : Body)

abbrev Capture := Origin × Core.Event

def Capture.signal? : Capture → Option Signal
  | (.signal s, _) => some s
  | (.message _ _, _) => none

def Capture.message? : Capture → Option (Handler × Body)
  | (.signal _, _) => none
  | (.message h event, _) => some (h, event)

/-- What `connect_signals` builds both paths with; `given` says that it was given
a loop. -/
structure Setup where
  py : Interp
  redaction : RedactionEngine
  event : EventModel
  hostname_filter : Option (Val → Bool)
  given : Bool

/-- The hooks pass on the same events whatever the sink does. -/
def Setup.hooks (u : Setup) : Signals.Env := ⟨u.py, u.redaction, u.event, fun _ => .ok ()⟩

/-- What `call_soon_threadsafe` raises on a closed loop. -/
def loopClosed : Exn := ⟨.other, "RuntimeError", "Event loop is closed"⟩

/-- The monitor, with a sink that raises or not. -/
def Setup.monitor (u : Setup) (raising : Bool) : Broker.Env :=
  ⟨u.py, u.redaction, u.event, u.hostname_filter, 50000, fun _ => if raising then .error loopClosed else .ok ()⟩

/-- The handler calls that a message makes. -/
def Setup.calls (u : Setup) (d : Delivery) : List (Handler × Body) := Broker.calls (u.monitor false) d.events

/-- `calling` are the handler calls that the monitor's thread is to make. The
signals of the connecting process, the messages and the handler calls made are
recorded, in order. -/
structure State (P : Type) where
  monitor : Monitor
  calling : List (Handler × Body)
  pipe : Pipeline.State P Capture 10000
  fired : List Signal
  received : List Delivery
  told : List (Handler × Body)

inductive Input (P : Type) where
  | signal (pid : P) (running : Bool) (s : Signal)
  | message (d : Delivery)
  | handle
  | loop (e : Pipeline.Event P Capture)

/-- What the next handler call sinks. -/
def emitted (env : Broker.Env) (h : Handler) (event : Body) (s : Monitor) : List Capture :=
  ((final (Broker.handle env h event s)).sunk.drop s.sunk.length).map (Origin.message h event, ·)

variable {P : Type} [DecidableEq P]

def init (connect_pid : P) : State P := ⟨Monitor.init, [], Pipeline.init connect_pid, [], [], []⟩

/-- The sink's calls, one after the other, of the monitor's thread, which runs no
loop. -/
def sinkAll (u : Setup) (connect_pid : P) (xs : List Capture) (pipe : Pipeline.State P Capture 10000) :
    Pipeline.State P Capture 10000 :=
  xs.foldl (fun pipe x => Pipeline.sink u.given connect_pid connect_pid false x pipe) pipe

/-- A signal's handler passes its event on at once; so does a handler of the
monitor, whose sink raises when the loop that it was given is closed. The loop runs
a callback, or the consumer gets an event, or reads the count, or the loop is
closed. -/
def step (u : Setup) (connect_pid : P) (s : State P) : Input P → Option (State P)
  | .signal pid running signal =>
    let fired := if pid = connect_pid then s.fired ++ [signal] else s.fired
    match Signals.reported u.hooks signal with
    | some ev =>
      some { s with pipe := Pipeline.sink u.given connect_pid pid running (.signal signal, ev) s.pipe, fired := fired }
    | none => some { s with fired := fired }
  | .message d => some { s with calling := s.calling ++ u.calls d, received := s.received ++ [d] }
  | .handle =>
    match s.calling with
    | [] => none
    | (h, event) :: calling =>
      let env := u.monitor (u.given && s.pipe.closed)
      some { s with monitor := final (Broker.handle env h event s.monitor), calling := calling
                    pipe := sinkAll u connect_pid (emitted env h event s.monitor) s.pipe
                    told := s.told ++ [(h, event)] }
  | .loop (.sink _ _ _) => none
  | .loop e => (Pipeline.step u.given connect_pid s.pipe e).map fun pipe => { s with pipe := pipe }

/-! ## What the handlers emit -/

theorem handle_sunk (env : Broker.Env) (h : Handler) (event : Body) (s : Monitor) :
    (final (Broker.handle env h event s)).sunk = s.sunk ++ (final (Broker.handle env h event s)).sunk.drop s.sunk.length ∧
      ((final (Broker.handle env h event s)).sunk.drop s.sunk.length = [] ∨
        ∃ ev, Made env.event h.kind (get event "uuid" (.str "")) ev ∧
          (final (Broker.handle env h event s)).sunk.drop s.sunk.length = [ev]) := by
  have hsame : (final (Broker.handle env h event s)).sunk = (final (Broker.body env h event s)).sunk := by
    rw [Broker.handle_apply]
    rfl
  rw [hsame]
  rcases @Broker.body_shaped env h event s with hsunk | ⟨ev, hev, hsunk⟩
  · rw [hsunk, List.drop_length]
    exact ⟨(List.append_nil _).symm, .inl rfl⟩
  · rw [hsunk, List.drop_left]
    exact ⟨rfl, .inr ⟨ev, hev, rfl⟩⟩

/-- The event is of the kind, and about the task, that it was captured from. -/
def Tells (u : Setup) : Capture → Prop
  | (.signal s, ev) => ∃ id, signal_task_id u.hooks s = .ok id ∧ Made u.event (signal_kind s) id ev
  | (.message h event, ev) => Made u.event h.kind (get event "uuid" (.str "")) ev

/-- A handler call sinks nothing, or one event of its own. -/
theorem emitted_cases (u : Setup) (raising : Bool) (h : Handler) (event : Body) (s : Monitor) :
    (final (Broker.handle (u.monitor raising) h event s)).sunk =
        s.sunk ++ (emitted (u.monitor raising) h event s).map Prod.snd ∧
      (emitted (u.monitor raising) h event s = [] ∨
        ∃ ev, Tells u (.message h event, ev) ∧ emitted (u.monitor raising) h event s = [(.message h event, ev)]) := by
  obtain ⟨hsunk, hone⟩ := handle_sunk (u.monitor raising) h event s
  have hmap : (emitted (u.monitor raising) h event s).map Prod.snd =
      (final (Broker.handle (u.monitor raising) h event s)).sunk.drop s.sunk.length := by
    rw [emitted, List.map_map]
    exact List.map_id _
  refine ⟨by rw [hmap, ← hsunk], ?_⟩
  rcases hone with hnone | ⟨ev, hev, hnew⟩
  · exact .inl (by rw [emitted, hnone]; rfl)
  · exact .inr ⟨ev, hev, by rw [emitted, hnew]; rfl⟩

/-! ## The invariant -/

/-- What the sink got from either path, and what is still to come. -/
structure Inv (u : Setup) (connect_pid : P) (s : State P) : Prop where
  pipe : Pipeline.Inv u.given connect_pid s.pipe
  signals : (Pipeline.own connect_pid s.pipe).filterMap Capture.signal? =
    s.fired.filter fun signal => (Signals.reported u.hooks signal).isSome
  messages : ((Pipeline.own connect_pid s.pipe).filterMap Capture.message?).Sublist s.told
  tells : ∀ x ∈ Pipeline.own connect_pid s.pipe, Tells u x
  sunk : ((Pipeline.own connect_pid s.pipe).map Prod.snd).Perm
    (s.fired.filterMap (Signals.reported u.hooks) ++ s.monitor.sunk)
  calls : s.told ++ s.calling = s.received.flatMap u.calls

variable {u : Setup} {connect_pid : P} {s s' : State P}

theorem inv_init (u : Setup) (connect_pid : P) : Inv u connect_pid (init connect_pid) :=
  ⟨Pipeline.inv_init u.given connect_pid, rfl, List.nil_sublist _, fun _ hx => absurd hx List.not_mem_nil,
    List.Perm.refl _, rfl⟩

/-- The loop does not touch what the sink got. -/
theorem loop_own {pipe pipe' : Pipeline.State P Capture 10000} {e : Pipeline.Event P Capture}
    (he : ∀ pid running x, e ≠ .sink pid running x) (h : Pipeline.step u.given connect_pid pipe e = some pipe') :
    Pipeline.own connect_pid pipe' = Pipeline.own connect_pid pipe := by
  cases e with
  | sink pid running x => exact absurd rfl (he pid running x)
  | callback =>
    rw [Pipeline.step] at h
    split at h
    · cases h
    · obtain ⟨a, -, rfl⟩ := Option.map_eq_some_iff.1 h
      rfl
  | get =>
    rw [Pipeline.step] at h
    split at h
    · cases h
    · obtain ⟨p, -, rfl⟩ := Option.map_eq_some_iff.1 h
      rfl
  | read =>
    obtain ⟨p, -, rfl⟩ := Option.map_eq_some_iff.1 h
    rfl
  | close => exact Option.some.inj h ▸ rfl

theorem sink_own (running : Bool) (x : Capture) (pipe : Pipeline.State P Capture 10000) :
    Pipeline.own connect_pid (Pipeline.sink u.given connect_pid connect_pid running x pipe) =
      Pipeline.own connect_pid pipe ++ [x] := by rw [Pipeline.own_sink, if_pos rfl]

/-- A signal of the connecting process. -/
theorem Inv.fire (h : Inv u connect_pid s) (running : Bool) {signal : Signal} {ev : Core.Event}
    (hr : Signals.reported u.hooks signal = some ev) : Inv u connect_pid { s with
      pipe := Pipeline.sink u.given connect_pid connect_pid running (.signal signal, ev) s.pipe
      fired := s.fired ++ [signal] } := by
  refine ⟨h.pipe.sink connect_pid running _, ?_, ?_, ?_, ?_, h.calls⟩
  · rw [sink_own, List.filterMap_append, List.filter_append, h.signals]
    simp [Capture.signal?, hr]
  · have hnone : Capture.message? (Origin.signal signal, ev) = none := rfl
    rw [sink_own, List.filterMap_append, List.filterMap_cons_none hnone, List.filterMap_nil, List.append_nil]
    exact h.messages
  · intro x hx
    rw [sink_own] at hx
    rcases List.mem_append.1 hx with hx | hx
    · exact h.tells x hx
    · obtain rfl := List.mem_singleton.1 hx
      exact reported_shaped hr
  · rw [sink_own, List.map_append, List.filterMap_append, List.filterMap_cons_some hr, List.filterMap_nil]
    refine (h.sunk.append_right _).trans ?_
    simp only [List.append_assoc]
    exact List.perm_append_comm.append_left _

/-- A signal without an event. -/
theorem Inv.silent (h : Inv u connect_pid s) {signal : Signal} (hr : Signals.reported u.hooks signal = none) :
    Inv u connect_pid { s with fired := s.fired ++ [signal] } := by
  refine ⟨h.pipe, ?_, h.messages, h.tells, ?_, h.calls⟩
  · rw [List.filter_append, h.signals]
    simp [hr]
  · rw [List.filterMap_append, List.filterMap_cons_none hr, List.filterMap_nil, List.append_nil]
    exact h.sunk

/-- A signal of another process. -/
theorem Inv.other (h : Inv u connect_pid s) {pid : P} (hpid : pid ≠ connect_pid) (running : Bool) (x : Capture) :
    Inv u connect_pid { s with pipe := Pipeline.sink u.given connect_pid pid running x s.pipe } := by
  have hown : Pipeline.own connect_pid (Pipeline.sink u.given connect_pid pid running x s.pipe) =
      Pipeline.own connect_pid s.pipe := by rw [Pipeline.own_sink, if_neg hpid]
  exact ⟨h.pipe.sink pid running x, hown ▸ h.signals, hown ▸ h.messages, hown ▸ h.tells, hown ▸ h.sunk, h.calls⟩

theorem Inv.signal (h : Inv u connect_pid s) {pid : P} {running : Bool} {signal : Signal}
    (hs : step u connect_pid s (.signal pid running signal) = some s') : Inv u connect_pid s' := by
  by_cases hpid : pid = connect_pid
  · subst hpid
    cases hr : Signals.reported u.hooks signal with
    | some ev =>
      simp only [step, hr, if_pos] at hs
      exact Option.some.inj hs ▸ h.fire running hr
    | none =>
      simp only [step, hr, if_pos] at hs
      exact Option.some.inj hs ▸ h.silent hr
  · cases hr : Signals.reported u.hooks signal with
    | some ev =>
      simp only [step, hr, if_neg hpid] at hs
      exact Option.some.inj hs ▸ h.other hpid running _
    | none =>
      simp only [step, hr, if_neg hpid] at hs
      exact Option.some.inj hs ▸ h

theorem Inv.message (h : Inv u connect_pid s) {d : Delivery} (hs : step u connect_pid s (.message d) = some s') :
    Inv u connect_pid s' := by
  obtain rfl := Option.some.inj hs
  refine ⟨h.pipe, h.signals, h.messages, h.tells, h.sunk, ?_⟩
  simp only
  rw [← List.append_assoc, h.calls, List.flatMap_append, List.flatMap_singleton]

theorem Inv.handle (h : Inv u connect_pid s) (hs : step u connect_pid s .handle = some s') : Inv u connect_pid s' := by
  rw [step] at hs
  split at hs
  · cases hs
  · rename_i handler event calling hcalling
    obtain rfl := Option.some.inj hs
    generalize hraising : (u.given && s.pipe.closed) = raising
    obtain ⟨hsunk, hone⟩ := emitted_cases u raising handler event s.monitor
    have hcalls : s.told ++ [(handler, event)] ++ calling = s.received.flatMap u.calls := by
      rw [List.append_assoc, List.singleton_append, ← hcalling, h.calls]
    rcases hone with hnone | ⟨ev, hev, hnew⟩
    · rw [hnone, List.map_nil, List.append_nil] at hsunk
      rw [hnone]
      exact ⟨h.pipe, h.signals, h.messages.trans (List.sublist_append_left _ _), h.tells, hsunk ▸ h.sunk, hcalls⟩
    · rw [hnew] at hsunk ⊢
      refine ⟨h.pipe.sink connect_pid false _, ?_, ?_, ?_, ?_, hcalls⟩
      · have hnone : Capture.signal? (Origin.message handler event, ev) = none := rfl
        rw [sinkAll, List.foldl_cons, List.foldl_nil, sink_own, List.filterMap_append, List.filterMap_cons_none hnone,
          List.filterMap_nil, List.append_nil]
        exact h.signals
      · rw [sinkAll, List.foldl_cons, List.foldl_nil, sink_own, List.filterMap_append]
        exact h.messages.append (List.Sublist.refl _)
      · intro x hx
        rw [sinkAll, List.foldl_cons, List.foldl_nil, sink_own] at hx
        rcases List.mem_append.1 hx with hx | hx
        · exact h.tells x hx
        · obtain rfl := List.mem_singleton.1 hx
          exact hev
      · rw [sinkAll, List.foldl_cons, List.foldl_nil, sink_own, List.map_append]
        simp only [hsunk]
        rw [← List.append_assoc]
        exact h.sunk.append_right _

theorem Inv.loop (h : Inv u connect_pid s) {e : Pipeline.Event P Capture} (hs : step u connect_pid s (.loop e) = some s') :
    Inv u connect_pid s' := by
  have hloop : (∀ pid running x, e ≠ .sink pid running x) ∧
      ∃ pipe, Pipeline.step u.given connect_pid s.pipe e = some pipe ∧ { s with pipe := pipe } = s' := by
    cases e with
    | sink pid running x => cases hs
    | callback | get | read | close => exact ⟨fun _ _ _ he => (by cases he), Option.map_eq_some_iff.1 hs⟩
  obtain ⟨hne, pipe, hpipe, rfl⟩ := hloop
  have hown := loop_own hne hpipe
  exact ⟨Pipeline.inv_step (by decide) h.pipe hpipe, hown ▸ h.signals, hown ▸ h.messages, hown ▸ h.tells, hown ▸ h.sunk,
    h.calls⟩

theorem inv_step {e : Input P} (h : Inv u connect_pid s) (hs : step u connect_pid s e = some s') : Inv u connect_pid s' := by
  cases e with
  | signal pid running signal => exact h.signal hs
  | message d => exact h.message hs
  | handle => exact h.handle hs
  | loop e => exact h.loop hs

theorem inv_run {es : List (Input P)} (h : run (step u connect_pid) es (init connect_pid) = some s) :
    Inv u connect_pid s := Lib.run_inv (fun _ _ _ hi hs => inv_step hi hs) h (inv_init u connect_pid)

/-! ## What the consumer gets -/

end Z4jCelery.Engine.Captured
