import Mathlib.Data.Finset.Basic
import Mathlib.Data.Finset.Image
import Mathlib.Logic.Function.Basic
/-!
# Subscriptions

Celery keeps the receivers of a signal by receiver and sender. The hooks
register their handlers under their sender filter and remove them under none.
A run of calls is followed phase by phase (`run_at`), which says when the last
`disconnect` leaves the registries as they were (`disconnect_restores_iff`).
-/

namespace Z4jCelery.Events.Signals

/-- The signals that the hooks subscribe to. -/
inductive SignalName where
  | task_received | task_prerun | task_postrun | task_failure | task_retry | task_revoked
  deriving DecidableEq

variable {Receiver Sender : Type} [DecidableEq Receiver] [DecidableEq Sender]

/-! ## Celery's registries -/

/-- What is registered for each signal: a receiver with the sender it is for,
or with none for every sender. -/
abbrev Registries (Receiver Sender : Type) := SignalName → Finset (Receiver × Option Sender)

/-- `signal.connect(receiver, sender=sender, weak=False)`. -/
def Registries.connect (r : Registries Receiver Sender) (signal : SignalName) (receiver : Receiver)
    (sender : Option Sender) : Registries Receiver Sender :=
  Function.update r signal (insert (receiver, sender) (r signal))

/-- `signal.disconnect(receiver, sender)`. -/
def Registries.disconnect (r : Registries Receiver Sender) (signal : SignalName) (receiver : Receiver)
    (sender : Option Sender) : Registries Receiver Sender :=
  Function.update r signal ((r signal).erase (receiver, sender))

/-- The receivers of a signal that a sender sends. -/
def Registries.receivers (r : Registries Receiver Sender) (signal : SignalName) (sender : Sender) : Finset Receiver :=
  ((r signal).filter fun key => key.2 = none ∨ key.2 = some sender).image Prod.fst

/-! ## The hooks -/

/-- The hooks, as far as they subscribe; `handler` is their method for each signal. -/
structure CelerySignalHooks (Receiver Sender : Type) where
  sender : Option Sender
  handler : SignalName → Receiver
  connected : Bool
  handlers : List (SignalName × Receiver)

structure Process (Receiver Sender : Type) where
  registries : Registries Receiver Sender
  hooks : CelerySignalHooks Receiver Sender

namespace Process

/-- New hooks, in a process with these registries. -/
def new (registries : Registries Receiver Sender) (sender : Option Sender) (handler : SignalName → Receiver) :
    Process Receiver Sender := ⟨registries, ⟨sender, handler, false, []⟩⟩

def subscribe (p : Process Receiver Sender) (signal : SignalName) (handler : Receiver) : Process Receiver Sender where
  registries := p.registries.connect signal handler p.hooks.sender
  hooks := { p.hooks with handlers := p.hooks.handlers ++ [(signal, handler)] }

def connect (p : Process Receiver Sender) : Process Receiver Sender :=
  if p.hooks.connected then p
  else
    let p := p.subscribe .task_received (p.hooks.handler .task_received)
    let p := p.subscribe .task_prerun (p.hooks.handler .task_prerun)
    let p := p.subscribe .task_postrun (p.hooks.handler .task_postrun)
    let p := p.subscribe .task_failure (p.hooks.handler .task_failure)
    let p := p.subscribe .task_retry (p.hooks.handler .task_retry)
    let p := p.subscribe .task_revoked (p.hooks.handler .task_revoked)
    { p with hooks := { p.hooks with connected := true } }

/-- `for signal, handler in self._handlers: signal.disconnect(handler)`, where
the sender is left at its default. -/
def unsubscribe : List (SignalName × Receiver) → Registries Receiver Sender → Registries Receiver Sender
  | [], r => r
  | (signal, handler) :: handlers, r => unsubscribe handlers (r.disconnect signal handler none)

def disconnect (p : Process Receiver Sender) : Process Receiver Sender :=
  if !p.hooks.connected then p
  else ⟨unsubscribe p.hooks.handlers p.registries, { p.hooks with handlers := [], connected := false }⟩

inductive Call where
  | connect | disconnect
  deriving DecidableEq

def step (p : Process Receiver Sender) : Call → Process Receiver Sender
  | .connect => p.connect
  | .disconnect => p.disconnect

def run (p : Process Receiver Sender) (calls : List Call) : Process Receiver Sender := calls.foldl step p

/-! ## What a call does -/

/-- The subscriptions of connected hooks, in their order. -/
def subscriptions (handler : SignalName → Receiver) : List (SignalName × Receiver) :=
  [(.task_received, handler .task_received), (.task_prerun, handler .task_prerun),
    (.task_postrun, handler .task_postrun), (.task_failure, handler .task_failure),
    (.task_retry, handler .task_retry), (.task_revoked, handler .task_revoked)]

/-- The registries with every handler registered under the filter. -/
def with_own (sender : Option Sender) (handler : SignalName → Receiver) (r : Registries Receiver Sender) :
    Registries Receiver Sender := fun signal => insert (handler signal, sender) (r signal)

/-- The registries without the handlers that are registered for every sender. -/
def without_open (handler : SignalName → Receiver) (r : Registries Receiver Sender) : Registries Receiver Sender :=
  fun signal => (r signal).erase (handler signal, none)

variable {p : Process Receiver Sender} {r : Registries Receiver Sender} {sender : Option Sender}
  {handler : SignalName → Receiver}

theorem connect_new : connect ⟨r, ⟨sender, handler, false, []⟩⟩ =
    ⟨with_own sender handler r, ⟨sender, handler, true, subscriptions handler⟩⟩ := by
  have hregistries : (connect ⟨r, ⟨sender, handler, false, []⟩⟩).registries = with_own sender handler r := by
    funext signal
    cases signal <;> rfl
  rw [← hregistries]
  rfl

theorem unsubscribe_all : unsubscribe (subscriptions handler) r = without_open handler r := by
  funext signal
  cases signal <;> rfl

theorem disconnect_connected : disconnect ⟨r, ⟨sender, handler, true, subscriptions handler⟩⟩ =
    ⟨without_open handler r, ⟨sender, handler, false, []⟩⟩ := by
  rw [← unsubscribe_all]
  rfl

/-! ## Runs -/

/-- Where the hooks are: never connected, connected for the first time,
disconnected, or connected again. -/
inductive Phase where
  | new | connected | disconnected | reconnected

def Phase.next : Phase → Call → Phase
  | .new, .connect => .connected
  | .disconnected, .connect => .reconnected
  | .connected, .disconnect => .disconnected
  | .reconnected, .disconnect => .disconnected
  | phase, _ => phase

/-- What a `connect` and a `disconnect` leave of the registries. -/
def left (sender : Option Sender) (handler : SignalName → Receiver) (r : Registries Receiver Sender) :
    Registries Receiver Sender := without_open handler (with_own sender handler r)

/-- The process in each phase, from the registries before the first `connect`. -/
def at_phase (sender : Option Sender) (handler : SignalName → Receiver) (r : Registries Receiver Sender) :
    Phase → Process Receiver Sender
  | .new => new r sender handler
  | .connected => ⟨with_own sender handler r, ⟨sender, handler, true, subscriptions handler⟩⟩
  | .disconnected => new (left sender handler r) sender handler
  | .reconnected =>
    ⟨with_own sender handler (left sender handler r), ⟨sender, handler, true, subscriptions handler⟩⟩

/-- A second round leaves what the first one left. -/
theorem left_left : left sender handler (left sender handler r) = left sender handler r := by
  funext signal
  ext key
  simp only [left, without_open, with_own, Finset.mem_erase, Finset.mem_insert]
  tauto

theorem step_at (phase : Phase) (call : Call) :
    (at_phase sender handler r phase).step call = at_phase sender handler r (phase.next call) := by
  cases phase with
  | new =>
    cases call with
    | connect => exact connect_new
    | disconnect => rfl
  | connected =>
    cases call with
    | connect => rfl
    | disconnect => exact disconnect_connected
  | disconnected =>
    cases call with
    | connect => exact connect_new
    | disconnect => rfl
  | reconnected =>
    cases call with
    | connect => rfl
    | disconnect =>
      have h : disconnect (at_phase sender handler r .reconnected) =
          new (left sender handler (left sender handler r)) sender handler := disconnect_connected
      rw [left_left] at h
      exact h

theorem run_at (calls : List Call) (phase : Phase) :
    (at_phase sender handler r phase).run calls = at_phase sender handler r (calls.foldl Phase.next phase) := by
  induction calls generalizing phase with
  | nil => rfl
  | cons call calls ih =>
    rw [run, List.foldl_cons, step_at]
    exact ih _

/-! ## After a disconnect -/

theorem next_ne_new {phase : Phase} (h : phase ≠ .new) (call : Call) : phase.next call ≠ .new := by
  cases phase <;> cases call <;> simp_all [Phase.next]

theorem phases_ne_new (calls : List Call) {phase : Phase} (h : phase ≠ .new) : calls.foldl Phase.next phase ≠ .new := by
  induction calls generalizing phase with
  | nil => exact h
  | cons call calls ih => exact ih (next_ne_new h call)

theorem phases_new_iff (calls : List Call) : calls.foldl Phase.next .new = .new ↔ .connect ∉ calls := by
  induction calls with
  | nil => simp
  | cons call calls ih =>
    cases call with
    | connect =>
      have hne : calls.foldl Phase.next .connected ≠ .new := phases_ne_new calls (by simp)
      exact iff_of_false hne (by simp)
    | disconnect => simpa [Phase.next] using ih

theorem next_disconnect {phase : Phase} (h : phase ≠ .new) : phase.next .disconnect = .disconnected := by
  cases phase with
  | new => exact absurd rfl h
  | connected | disconnected | reconnected => rfl

/-- What a run that ends in a `disconnect` leaves. -/
theorem run_disconnect (calls : List Call) : ((new r sender handler).run (calls ++ [.disconnect])).registries =
    if .connect ∈ calls then left sender handler r else r := by
  have hrun : (new r sender handler).run (calls ++ [.disconnect]) =
      at_phase sender handler r ((calls.foldl Phase.next .new).next .disconnect) := by
    have h := @run_at _ _ _ _ r sender handler (calls ++ [.disconnect]) .new
    rwa [List.foldl_append] at h
  rw [hrun]
  by_cases hcalls : .connect ∈ calls
  · rw [next_disconnect (fun h => (phases_new_iff calls).1 h hcalls), if_pos hcalls]
    rfl
  · rw [(phases_new_iff calls).2 hcalls, if_neg hcalls]
    rfl

/-- No handler was registered for every sender before; under a filter, each was
registered under it. -/
def Restores (sender : Option Sender) (handler : SignalName → Receiver) (r : Registries Receiver Sender) : Prop :=
  ∀ signal, (handler signal, none) ∉ r signal ∧ (sender ≠ none → (handler signal, sender) ∈ r signal)

theorem left_eq_iff : left sender handler r = r ↔ Restores sender handler r := by
  rw [funext_iff, Restores]
  refine forall_congr' fun signal => ?_
  show ((insert (handler signal, sender) (r signal)).erase (handler signal, none)) = r signal ↔ _
  constructor
  · intro h
    rw [← h]
    simp
  · rintro ⟨hopen, hown⟩
    rcases eq_or_ne sender none with rfl | hsender
    · exact Finset.erase_insert hopen
    · rw [Finset.insert_eq_of_mem (hown hsender), Finset.erase_eq_of_notMem hopen]

/-- For all registries, every filter and every sequence of calls: after a
`disconnect` the registries are as before the first `connect` exactly when there
was none, or no handler was registered for every sender and, under a filter,
each was registered under the filter before. -/
theorem disconnect_restores_iff (r : Registries Receiver Sender) (sender : Option Sender)
    (handler : SignalName → Receiver) (calls : List Call) :
    ((new r sender handler).run (calls ++ [.disconnect])).registries = r ↔
      .connect ∉ calls ∨ Restores sender handler r := by
  rw [run_disconnect]
  by_cases hcalls : .connect ∈ calls
  · rw [if_pos hcalls, left_eq_iff]
    simp [hcalls]
  · rw [if_neg hcalls]
    exact iff_of_true rfl (.inl hcalls)

/-- Hooks with a filter that nobody else registered leave all six handlers. -/
theorem filter_leaves_handlers :
    let p := (new (fun _ => ∅) (some 7) id : Process SignalName Nat).run [.connect, .disconnect]
    p.hooks.connected = false ∧ p.registries .task_received = {(.task_received, some 7)} ∧
      p.registries .task_failure = {(.task_failure, some 7)} := by
  decide

/-- Such a handler is still called for the signals of that sender. -/
theorem filtered_handler_called (r : Registries Receiver Sender) (sender : Sender) (handler : SignalName → Receiver)
    {calls : List Call} (h : .connect ∈ calls) (signal : SignalName) :
    handler signal ∈ ((new r (some sender) handler).run (calls ++ [.disconnect])).registries.receivers signal sender := by
  rw [run_disconnect, if_pos h, Registries.receivers, Finset.mem_image]
  refine ⟨(handler signal, some sender), ?_, rfl⟩
  simp [left, without_open, with_own]

end Process

end Z4jCelery.Events.Signals
