import Z4jCelery.Lib.Queue
import Mathlib.Logic.Function.Basic
/-!
# The event queue

`enqueue_event` puts an event on a bounded queue; when the queue is full it
evicts the oldest and tries again, and gives up after three attempts. Every
event lost is counted, in a counter that a forked process starts anew.

The first half is the code of one call. The second half interleaves calls: each
`put_nowait`, each `get_nowait` and each count is a step of its own, consumers
get events in between, and processes fork.
-/

namespace Z4jCelery.Engine.EventQueue

open Lib

variable {P α : Type} [DecidableEq P] {maxsize : Nat}

/-! ## The adapter -/

/-- The queue and the loss counter. `event_loss_lock` says that a thread holds
the lock that no longer runs in this process. -/
structure Adapter (P α : Type) (maxsize : Nat) where
  event_queue : Queue α maxsize
  event_loss_lock : Bool
  event_loss_pid : P
  dropped_event_count : Nat

/-- `2**53 - 1`. -/
def MAX_COUNT : Nat := 9007199254740991

def reset_inherited_loss_counter (pid : P) (a : Adapter P α maxsize) : Adapter P α maxsize :=
  if a.event_loss_pid ≠ pid then { a with event_loss_lock := false, dropped_event_count := 0, event_loss_pid := pid }
  else a

/-- `with self._event_loss_lock: f`; a lock that nobody releases blocks. -/
def with_loss_lock {β : Type} (a : Adapter P α maxsize) (f : Adapter P α maxsize → β) : Option β :=
  if a.event_loss_lock then none else some (f a)

/-- The property `dropped_event_count`. -/
def dropped_event_count (pid : P) (a : Adapter P α maxsize) : Option (Nat × Adapter P α maxsize) :=
  with_loss_lock (reset_inherited_loss_counter pid a) fun a => (a.dropped_event_count, a)

def record_event_drop (pid : P) (a : Adapter P α maxsize) : Option (Adapter P α maxsize) :=
  with_loss_lock (reset_inherited_loss_counter pid a) fun a =>
    { a with dropped_event_count := min (a.dropped_event_count + 1) MAX_COUNT }

/-- The loop of `_enqueue_event`, with `n` attempts left. -/
def enqueue_attempts (pid : P) (event : α) : Nat → Adapter P α maxsize → Option (Adapter P α maxsize)
  | 0, a => record_event_drop pid a
  | n + 1, a =>
    match a.event_queue.put_nowait event with
    | some q => some { a with event_queue := q }
    | none =>
      match a.event_queue.get_nowait with
      | some (_, q) => (record_event_drop pid { a with event_queue := q }).bind (enqueue_attempts pid event n)
      | none => enqueue_attempts pid event n a

def enqueue_event (pid : P) (event : α) (a : Adapter P α maxsize) : Option (Adapter P α maxsize) :=
  enqueue_attempts pid event 3 a

/-! ## Calls in progress -/

/-- Where a call of `_enqueue_event` is: about to put, to evict, to record the
loss of what it evicted, or, out of attempts, to record the loss of its event.
`left` attempts follow the current one. -/
inductive Call (α : Type) where
  | put (event : α) (left : Nat)
  | evict (event : α) (left : Nat)
  | record (event dropped : α) (left : Nat)
  | exhausted (event : α)

/-- The start of the loop's next attempt. -/
def next (event : α) : Nat → Call α
  | 0 => .exhausted event
  | n + 1 => .put event n

/-- The events a call has in its hands. -/
def Call.held : Call α → List α
  | .put event _ | .evict event _ | .exhausted event => [event]
  | .record event dropped _ => [event, dropped]

/-- What happened to the events of one process: those its queue held when it
was forked, those offered to it since, and in order what was put, removed,
delivered, and dropped and counted. -/
structure Ledger (α : Type) where
  inherited : List α
  offered : List α
  puts : List α
  removed : List α
  delivered : List α
  dropped : List α

structure Process (P α : Type) (maxsize : Nat) where
  adapter : Adapter P α maxsize
  calls : List (Call α)
  ledger : Ledger α

namespace Process

def items (p : Process P α maxsize) : List α := p.adapter.event_queue.items

/-- The events that calls in progress have in their hands. -/
def pending (p : Process P α maxsize) : List α := p.calls.flatMap Call.held

def with_queue (p : Process P α maxsize) (q : Queue α maxsize) : Process P α maxsize :=
  { p with adapter := { p.adapter with event_queue := q } }

/-- A call of `_enqueue_event` begins. -/
def offer (p : Process P α maxsize) (event : α) : Process P α maxsize :=
  { p with calls := p.calls ++ [.put event 2], ledger := { p.ledger with offered := p.ledger.offered ++ [event] } }

/-- The next step of a call: what it does, and where the call is then, unless it
returns. -/
def advance (pid : P) (p : Process P α maxsize) : Call α → Option (Process P α maxsize × Option (Call α))
  | .put event left =>
    match p.adapter.event_queue.put_nowait event with
    | some q => some ({ p.with_queue q with ledger := { p.ledger with puts := p.ledger.puts ++ [event] } }, none)
    | none => some (p, some (.evict event left))
  | .evict event left =>
    match p.adapter.event_queue.get_nowait with
    | some (dropped, q) =>
      some ({ p.with_queue q with ledger := { p.ledger with removed := p.ledger.removed ++ [dropped] } },
        some (.record event dropped left))
    | none => some (p, some (next event left))
  | .record event dropped left =>
    (record_event_drop pid p.adapter).map fun a =>
      ({ p with adapter := a, ledger := { p.ledger with dropped := p.ledger.dropped ++ [dropped] } },
        some (next event left))
  | .exhausted event =>
    (record_event_drop pid p.adapter).map fun a =>
      ({ p with adapter := a, ledger := { p.ledger with dropped := p.ledger.dropped ++ [event] } }, none)

/-- The `i`-th call in progress makes a step. -/
def step_call (pid : P) (p : Process P α maxsize) (i : Nat) : Option (Process P α maxsize) :=
  match p.calls[i]? with
  | none => none
  | some c => (p.advance pid c).map fun (p', c') =>
      { p' with calls := match c' with
        | some c' => p.calls.set i c'
        | none => p.calls.eraseIdx i }

/-- `await self._event_queue.get()` returns an event, and the consumer has it. -/
def deliver (p : Process P α maxsize) : Option (Process P α maxsize) :=
  p.adapter.event_queue.get_nowait.map fun (event, q) =>
    { p.with_queue q with ledger := { p.ledger with
        removed := p.ledger.removed ++ [event], delivered := p.ledger.delivered ++ [event] } }

def read_count (pid : P) (p : Process P α maxsize) : Option (Process P α maxsize) :=
  (dropped_event_count pid p.adapter).map fun (_, a) => { p with adapter := a }

/-- A fork has the queue and the counter, a lock that a thread of the parent may
hold, and none of the parent's calls. -/
def fork (p : Process P α maxsize) (locked : Bool) : Process P α maxsize :=
  ⟨{ p.adapter with event_loss_lock := locked }, [], ⟨p.items, [], [], [], [], []⟩⟩

end Process

/-! ## Processes -/

inductive Event (P α : Type) where
  | call (pid : P) (event : α)
  | step (pid : P) (i : Nat)
  | get (pid : P)
  | read (pid : P)
  | fork (parent child : P) (locked : Bool)

/-- The processes, by their pids. -/
abbrev System (P α : Type) (maxsize : Nat) := P → Option (Process P α maxsize)

/-- What process `pid` does. -/
def within (s : System P α maxsize) (pid : P) (f : Process P α maxsize → Option (Process P α maxsize)) :
    Option (System P α maxsize) :=
  ((s pid).bind f).map fun p => Function.update s pid (some p)

/-- A fork's pid is that of no process so far. -/
def step (s : System P α maxsize) : Event P α → Option (System P α maxsize)
  | .call pid event => within s pid fun p => some (p.offer event)
  | .step pid i => within s pid fun p => p.step_call pid i
  | .get pid => within s pid Process.deliver
  | .read pid => within s pid fun p => p.read_count pid
  | .fork parent child locked =>
    match s parent, s child with
    | some p, none => some (Function.update s child (some (p.fork locked)))
    | _, _ => none

/-- A newly constructed adapter, in the process `pid`. -/
def init (pid : P) : System P α maxsize :=
  Function.update (fun _ => none) pid (some ⟨⟨Queue.empty, false, pid, 0⟩, [], ⟨[], [], [], [], [], []⟩⟩)

end Z4jCelery.Engine.EventQueue
