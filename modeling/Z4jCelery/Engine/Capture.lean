import Z4jCelery.Lib.Slot
import Z4jCelery.Py.Effect
/-!
# Connecting and disconnecting capture

The adapter captures events by signal hooks and by a broker monitor. Each of
the two guards against being connected twice; `connect_signals` makes new ones
every time. A run of calls never has two live objects of a kind, and none after
a `disconnect_signals`, exactly when every `connect_signals` comes while none
is live (`capture_iff`).
-/

namespace Z4jCelery.Engine.Capture

open Py Lib

/-! ## The hooks and the monitor -/

structure CelerySignalHooks where
  connected : Bool
  deriving DecidableEq

/-- The monitor's thread: none, one that was never started, or one that was. -/
inductive Thread where
  | absent
  | created
  | running
  deriving DecidableEq

structure CeleryBrokerEventsMonitor where
  thread : Thread
  deriving DecidableEq

/-- What the world does to a call: importing Celery's signals, setting the
event options of the app's configuration, and starting a thread. -/
structure World where
  signals : Except Exn Unit
  conf : Except Exn Unit
  thread : Except Exn Unit

def CelerySignalHooks.connect (w : World) : PyM CelerySignalHooks Unit := do
  let h ← MonadState.get
  if h.connected then pure ()
  else do
    ofOutcome w.signals
    modify fun h => { h with connected := true }

def CelerySignalHooks.disconnect : PyM CelerySignalHooks Unit := do
  let h ← MonadState.get
  if ¬ h.connected then pure () else modify fun h => { h with connected := false }

def CeleryBrokerEventsMonitor.start (w : World) : PyM CeleryBrokerEventsMonitor Unit := do
  let m ← MonadState.get
  if m.thread ≠ .absent then pure ()
  else do
    ofOutcome w.conf
    modify fun m => { m with thread := .created }
    ofOutcome w.thread
    modify fun m => { m with thread := .running }

/-- A thread that was never started cannot be joined. -/
def CeleryBrokerEventsMonitor.stop : PyM CeleryBrokerEventsMonitor Unit := do
  let m ← MonadState.get
  match m.thread with
  | .absent => pure ()
  | .created => throw ⟨.other, "RuntimeError", "cannot join thread before it is started"⟩
  | .running => modify fun m => { m with thread := .absent }

/-! ## The adapter -/

/-- The adapter, with every hooks object and every monitor it ever made. -/
structure Adapter where
  signal_hooks : Slot CelerySignalHooks
  broker_monitor : Slot CeleryBrokerEventsMonitor

def Adapter.init : Adapter := ⟨.empty, .empty⟩

abbrev AdapterM := PyM Adapter

/-- A method call on the object held. -/
def call {α : Type} (s : Slot α) (m : PyM α Unit) : EStateM.Result Exn (Slot α) Unit :=
  match s.get with
  | none => .ok () s
  | some a =>
    match m a with
    | .ok _ a' => .ok () (s.put a')
    | .error e a' => .error e (s.put a')

/-- A method call on `self._signal_hooks`. -/
def on_hooks (m : PyM CelerySignalHooks Unit) : AdapterM Unit := fun s =>
  match call s.signal_hooks m with
  | .ok _ hooks => .ok () { s with signal_hooks := hooks }
  | .error e hooks => .error e { s with signal_hooks := hooks }

/-- A method call on `self._broker_monitor`. -/
def on_monitor (m : PyM CeleryBrokerEventsMonitor Unit) : AdapterM Unit := fun s =>
  match call s.broker_monitor m with
  | .ok _ monitor => .ok () { s with broker_monitor := monitor }
  | .error e monitor => .error e { s with broker_monitor := monitor }

def connect_signals (w : World) : AdapterM Unit := do
  modify fun s => { s with signal_hooks := s.signal_hooks.create ⟨false⟩ }
  on_hooks (CelerySignalHooks.connect w)
  modify fun s => { s with broker_monitor := s.broker_monitor.create ⟨.absent⟩ }
  on_monitor (CeleryBrokerEventsMonitor.start w)

/-- The first half of `disconnect_signals`. -/
def disconnect_hooks : AdapterM Unit := do
  let s ← MonadState.get
  if s.signal_hooks.held ≠ none then do
    on_hooks CelerySignalHooks.disconnect
    modify fun s => { s with signal_hooks := s.signal_hooks.release }

/-- The second half of `disconnect_signals`. -/
def stop_monitor : AdapterM Unit := do
  let s ← MonadState.get
  if s.broker_monitor.held ≠ none then do
    on_monitor CeleryBrokerEventsMonitor.stop
    modify fun s => { s with broker_monitor := s.broker_monitor.release }

def disconnect_signals : AdapterM Unit := do
  disconnect_hooks
  stop_monitor

inductive Call where
  | connect (w : World)
  | disconnect

def perform : Call → AdapterM Unit
  | .connect w => connect_signals w
  | .disconnect => disconnect_signals

/-- The adapter after the calls, whether they raised or not. -/
def after (calls : List Call) : Adapter := calls.foldl (fun s c => final (perform c s)) .init

/-! ## What is live -/

def IsConnected (h : CelerySignalHooks) : Prop := h.connected = true

/-- Started, and not stopped. -/
def IsStarted (m : CeleryBrokerEventsMonitor) : Prop := m.thread = .running

/-- At most one hooks object is connected, and at most one monitor runs. -/
def Single (s : Adapter) : Prop :=
  (∀ i j, s.signal_hooks.Live IsConnected i → s.signal_hooks.Live IsConnected j → i = j) ∧
    ∀ i j, s.broker_monitor.Live IsStarted i → s.broker_monitor.Live IsStarted j → i = j

/-- No hooks object is connected, and no monitor runs. -/
def Quiet (s : Adapter) : Prop := s.signal_hooks.Quiet IsConnected ∧ s.broker_monitor.Quiet IsStarted

/-- Whatever is live is held. -/
def Owned (s : Adapter) : Prop := s.signal_hooks.Owned IsConnected ∧ s.broker_monitor.Owned IsStarted

/-! ## What a call does -/

/-- A connected hooks object, unless Celery's signals cannot be imported. -/
def connected_hooks (w : World) : CelerySignalHooks := ⟨w.signals.toOption.isSome⟩

/-- A running monitor, unless the start raises. -/
def started_monitor (w : World) : CeleryBrokerEventsMonitor :=
  ⟨if w.conf.toOption.isNone then .absent else if w.thread.toOption.isNone then .created else .running⟩

theorem call_create {α : Type} (s : Slot α) (a : α) (m : PyM α Unit) :
    call (s.create a) m = match m a with
      | .ok _ a' => .ok () (s.create a')
      | .error e a' => .error e (s.create a') := by
  rw [call, Slot.get_create]
  simp only [Slot.put_create]

theorem start_final (w : World) : final (CeleryBrokerEventsMonitor.start w ⟨.absent⟩) = started_monitor w := by
  obtain ⟨_, _ | _, _ | _⟩ := w <;> rfl

theorem on_monitor_start (w : World) (s : Adapter) (t : Slot CeleryBrokerEventsMonitor) :
    final (on_monitor (CeleryBrokerEventsMonitor.start w) { s with broker_monitor := t.create ⟨.absent⟩ }) =
      { s with broker_monitor := t.create (started_monitor w) } := by
  rw [on_monitor, call_create, ← start_final]
  cases CeleryBrokerEventsMonitor.start w ⟨.absent⟩ <;> rfl

/-- New hooks replace the old ones, and a new monitor the old one unless the
hooks fail. -/
theorem connect_signals_final (w : World) (s : Adapter) :
    final (connect_signals w s) = ⟨s.signal_hooks.create (connected_hooks w),
      if (connected_hooks w).connected then s.broker_monitor.create (started_monitor w) else s.broker_monitor⟩ := by
  rw [connect_signals, bind_ok (modify_apply _ s)]
  cases hw : w.signals with
  | error e =>
    have hconnect : CelerySignalHooks.connect w ⟨false⟩ = .error e ⟨false⟩ := by
      rw [CelerySignalHooks.connect, hw]
      rfl
    have hraise : on_hooks (CelerySignalHooks.connect w) { s with signal_hooks := s.signal_hooks.create ⟨false⟩ } =
        .error e { s with signal_hooks := s.signal_hooks.create ⟨false⟩ } := by
      rw [on_hooks, call_create, hconnect]
    rw [bind_error hraise, connected_hooks, hw]
    rfl
  | ok u =>
    have hconnect : CelerySignalHooks.connect w ⟨false⟩ = .ok () ⟨true⟩ := by
      rw [CelerySignalHooks.connect, hw]
      rfl
    have hok : on_hooks (CelerySignalHooks.connect w) { s with signal_hooks := s.signal_hooks.create ⟨false⟩ } =
        .ok () { s with signal_hooks := s.signal_hooks.create ⟨true⟩ } := by
      rw [on_hooks, call_create, hconnect]
    rw [bind_ok hok, bind_ok (modify_apply _ _), connected_hooks, hw]
    exact on_monitor_start w _ s.broker_monitor

theorem call_disconnect (t : Slot CelerySignalHooks) :
    call t CelerySignalHooks.disconnect = .ok () (t.put ⟨false⟩) := by
  rw [call]
  cases hget : t.get with
  | none => rw [Slot.put_of_get_none hget]
  | some h => obtain ⟨_ | _⟩ := h <;> rfl

theorem call_stop (t : Slot CeleryBrokerEventsMonitor) :
    call t CeleryBrokerEventsMonitor.stop = if t.get = some ⟨.created⟩ then
        .error ⟨.other, "RuntimeError", "cannot join thread before it is started"⟩ (t.put ⟨.created⟩)
      else .ok () (t.put ⟨.absent⟩) := by
  rw [call]
  cases hget : t.get with
  | none => rw [if_neg (by simp), Slot.put_of_get_none hget]
  | some m => obtain ⟨_ | _ | _⟩ := m <;> rfl

theorem disconnect_hooks_apply (s : Adapter) :
    disconnect_hooks s = .ok () { s with signal_hooks := (s.signal_hooks.put ⟨false⟩).release } := by
  rw [disconnect_hooks, bind_ok (get_apply s)]
  by_cases hheld : s.signal_hooks.held = none
  · rw [if_neg (not_not.2 hheld), Slot.put_of_get_none (Slot.get_of_held_none hheld), Slot.release_of_held_none hheld]
    rfl
  · have hcall : on_hooks CelerySignalHooks.disconnect s =
        .ok () { s with signal_hooks := s.signal_hooks.put ⟨false⟩ } := by
      rw [on_hooks, call_disconnect]
    rw [if_pos hheld, bind_ok hcall]
    rfl

/-- A monitor that cannot be joined stays. -/
theorem stop_monitor_final (s : Adapter) :
    final (stop_monitor s) = ⟨s.signal_hooks,
      if s.broker_monitor.get = some ⟨.created⟩ then s.broker_monitor.put ⟨.created⟩
      else (s.broker_monitor.put ⟨.absent⟩).release⟩ := by
  rw [stop_monitor, bind_ok (get_apply s)]
  by_cases hheld : s.broker_monitor.held = none
  · have hget := Slot.get_of_held_none hheld
    have hnot : ¬ s.broker_monitor.get = some ⟨.created⟩ := by rw [hget]; simp
    rw [if_neg (not_not.2 hheld), if_neg hnot, Slot.put_of_get_none hget, Slot.release_of_held_none hheld]
    rfl
  · rw [if_pos hheld]
    by_cases hcreated : s.broker_monitor.get = some ⟨.created⟩
    · have hcall : on_monitor CeleryBrokerEventsMonitor.stop s =
          .error ⟨.other, "RuntimeError", "cannot join thread before it is started"⟩
            { s with broker_monitor := s.broker_monitor.put ⟨.created⟩ } := by
        rw [on_monitor, call_stop, if_pos hcreated]
      rw [bind_error hcall, if_pos hcreated, final_error]
    · have hcall : on_monitor CeleryBrokerEventsMonitor.stop s =
          .ok () { s with broker_monitor := s.broker_monitor.put ⟨.absent⟩ } := by
        rw [on_monitor, call_stop, if_neg hcreated]
      rw [bind_ok hcall, if_neg hcreated]
      rfl

theorem disconnect_signals_final (s : Adapter) :
    final (disconnect_signals s) = ⟨(s.signal_hooks.put ⟨false⟩).release,
      if s.broker_monitor.get = some ⟨.created⟩ then s.broker_monitor.put ⟨.created⟩
      else (s.broker_monitor.put ⟨.absent⟩).release⟩ := by
  rw [disconnect_signals, bind_ok (disconnect_hooks_apply s), stop_monitor_final]

/-! ## One call -/

theorem Owned.single {s : Adapter} (h : Owned s) : Single s :=
  ⟨fun _ _ hi hj => h.1.unique hi hj, fun _ _ hi hj => h.2.unique hi hj⟩

/-- Whatever is live is held, and a monitor runs only beside connected hooks. -/
structure Inv (s : Adapter) : Prop where
  owned : Owned s
  paired : s.signal_hooks.Quiet IsConnected → s.broker_monitor.Quiet IsStarted

theorem Quiet.inv {s : Adapter} (h : Quiet s) : Inv s :=
  ⟨⟨Slot.Quiet.owned h.1, Slot.Quiet.owned h.2⟩, fun _ => h.2⟩

/-- When whatever is live is held, a disconnect ends it. -/
theorem disconnect_quiet {s : Adapter} (h : Owned s) : Quiet (final (disconnect_signals s)) := by
  rw [disconnect_signals_final]
  refine ⟨(h.1.end (by simp [IsConnected])).release, ?_⟩
  show Slot.Quiet IsStarted (if _ then _ else _)
  split
  · exact h.2.end (by simp [IsStarted])
  · exact (h.2.end (by simp [IsStarted])).release

/-- When nothing is live, whatever a connect makes live is held. -/
theorem connect_inv {s : Adapter} (h : Quiet s) (w : World) : Inv (final (connect_signals w s)) := by
  rw [connect_signals_final]
  refine ⟨⟨h.1.create _, ?_⟩, fun hq => ?_⟩
  · show Slot.Owned IsStarted (if _ then _ else _)
    split
    · exact h.2.create _
    · exact Slot.Quiet.owned h.2
  · show Slot.Quiet IsStarted (if _ then _ else _)
    split
    · rename_i hc
      have hlive : (s.signal_hooks.create (connected_hooks w)).Live IsConnected s.signal_hooks.arena.length :=
        Slot.live_create_self.2 hc
      exact absurd hlive (hq _)
    · exact h.2

/-- What is live when a connect comes outlives the next disconnect. -/
theorem connect_leaks {s : Adapter} (hi : Inv s) (h : ¬ Quiet s) (w : World) :
    ¬ Quiet (final (disconnect_signals (final (connect_signals w s)))) := by
  intro hquiet
  refine h ⟨?_, ?_⟩ <;> rw [disconnect_signals_final, connect_signals_final] at hquiet
  · exact fun i hlive => hquiet.1 i (Slot.leaked hlive _ _)
  · exact hi.paired fun i hlive => hquiet.1 i (Slot.leaked hlive _ _)

/-! ## Runs -/

/-- Every connect comes while nothing is live. -/
def Disciplined (calls : List Call) : Prop := ∀ p w, p ++ [.connect w] <+: calls → Quiet (after p)

/-- Every connect is the first call, or comes right after a disconnect. -/
def Alternates (calls : List Call) : Prop :=
  ∀ p w, p ++ [.connect w] <+: calls → p = [] ∨ ∃ q, p = q ++ [.disconnect]

theorem after_snoc (calls : List Call) (c : Call) : after (calls ++ [c]) = final (perform c (after calls)) := by
  rw [after, List.foldl_append]
  rfl

theorem after_nil_quiet : Quiet (after []) := ⟨Slot.quiet_empty, Slot.quiet_empty⟩

theorem after_inv {calls : List Call} (h : Disciplined calls) : Inv (after calls) := by
  induction calls using List.reverseRecOn with
  | nil => exact after_nil_quiet.inv
  | append_singleton calls c ih =>
    have hi := ih fun p w hp => h p w (hp.trans (List.prefix_append _ _))
    rw [after_snoc]
    cases c with
    | connect w => exact connect_inv (h calls w List.prefix_rfl) w
    | disconnect => exact (disconnect_quiet hi.owned).inv

/-- In every state of the run at most one of a kind is live, and a disconnect
there leaves none. -/
def Safe (calls : List Call) : Prop := ∀ p, p <+: calls → Single (after p) ∧ Quiet (after (p ++ [.disconnect]))

theorem Disciplined.safe {calls : List Call} (h : Disciplined calls) : Safe calls := by
  intro p hp
  have hi := after_inv fun q w hq => h q w (hq.trans hp)
  refine ⟨hi.owned.single, ?_⟩
  rw [after_snoc]
  exact disconnect_quiet hi.owned

theorem Safe.disciplined {calls : List Call} (h : Safe calls) : Disciplined calls := by
  induction calls using List.reverseRecOn with
  | nil => exact fun p w hp => absurd (List.prefix_nil.1 hp) (by simp)
  | append_singleton calls c ih =>
    have hd := ih fun p hp => h p (hp.trans (List.prefix_append _ _))
    intro p w hp
    rcases List.prefix_concat_iff.1 hp with heq | hp
    · obtain ⟨rfl, hc⟩ := List.append_inj' heq rfl
      by_contra hquiet
      have hlast := (h _ hp).2
      rw [after_snoc, after_snoc] at hlast
      exact connect_leaks (after_inv hd) hquiet w hlast
    · exact hd p w hp

theorem Alternates.disciplined {calls : List Call} (h : Alternates calls) : Disciplined calls := by
  induction calls using List.reverseRecOn with
  | nil => exact fun p w hp => absurd (List.prefix_nil.1 hp) (by simp)
  | append_singleton calls c ih =>
    have hd := ih fun p w hp => h p w (hp.trans (List.prefix_append _ _))
    intro p w hp
    rcases List.prefix_concat_iff.1 hp with heq | hp'
    · obtain ⟨rfl, -⟩ := List.append_inj' heq rfl
      rcases h p w hp with rfl | ⟨q, rfl⟩
      · exact after_nil_quiet
      · rw [after_snoc]
        exact disconnect_quiet (after_inv fun p w hp => hd p w (hp.trans (List.prefix_append _ _))).owned
    · exact hd p w hp'

/-- A run is safe exactly when every connect comes while nothing is live; so
when every connect but the first comes right after a disconnect. -/
theorem capture_iff (calls : List Call) :
    (Safe calls ↔ Disciplined calls) ∧ (Alternates calls → Safe calls) :=
  ⟨⟨Safe.disciplined, Disciplined.safe⟩, fun h => h.disciplined.safe⟩

/-- Two connects in a row: both hooks are connected and both monitors run, and a
disconnect leaves one of each. -/
theorem reconnect_leaks :
    let w : World := ⟨.ok (), .ok (), .ok ()⟩
    after [.connect w, .connect w] = ⟨⟨[⟨true⟩, ⟨true⟩], some 1⟩, ⟨[⟨.running⟩, ⟨.running⟩], some 1⟩⟩ ∧
      after [.connect w, .connect w, .disconnect] = ⟨⟨[⟨true⟩, ⟨false⟩], none⟩, ⟨[⟨.running⟩, ⟨.absent⟩], none⟩⟩ :=
  ⟨rfl, rfl⟩

end Z4jCelery.Engine.Capture
