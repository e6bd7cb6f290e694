import Z4jCelery.Events.Mapper
import Z4jCelery.Lib.Lru
import Z4jCelery.Py.Number
/-!
# The broker-events monitor

The monitor receives the worker's lifecycle events from the broker, names the
tasks from an LRU cache, and passes an event to the sink. `dispatch` is its
consumer callback: it acknowledges every message, and counts those that raise.

`log` and `history` record what the callback did and what happened to the
cache, both newest first; nothing reads them.
-/

namespace Z4jCelery.Events.Broker

open Py Z4jCelery.Core Events Mapper Lib

/-- An event of the broker: the items of its body. -/
abbrev Body := List (String × Val)

inductive Handler where
  | received
  | started
  | succeeded
  | failed
  | retried
  | revoked
  deriving DecidableEq

/-- What the callback did: a handler call, and whether it ran to its end; or an
acknowledgement. -/
inductive Entry where
  | handled (handler : Handler) (event : Body) (completed : Bool)
  | acked

structure Monitor where
  name_cache : Dict Val Val
  poison_drop_count : Nat
  sunk : List Event
  log : List Entry
  history : List (Lru.Op Val Val)

def Monitor.init : Monitor := ⟨.empty, 0, [], [], []⟩

/-- What the monitor is built with. `sink` is what the sink does to its `i`-th
event. -/
structure Env where
  py : Interp
  redaction : RedactionEngine
  event : EventModel
  hostname_filter : Option (Val → Bool)
  NAME_CACHE_MAX : Nat
  sink : Nat → Except Exn Unit

abbrev MonitorM := PyM Monitor

variable (env : Env)

/-- The key of a value in the name cache. -/
def key (v : Val) : Except Exn Val :=
  match v.key? with
  | some k => .ok k
  | none => .error (typeError "unhashable type")

def Monitor.record (s : Monitor) (e : Entry) : Monitor := { s with log := e :: s.log }

/-- `self._poison_drop_count += 1`. -/
def Monitor.poison (s : Monitor) : Monitor := { s with poison_drop_count := s.poison_drop_count + 1 }

/-! ## The name cache -/

/-- Store a name, and evict down to `N` names. -/
def Monitor.cache (s : Monitor) (N : Nat) (k name : Val) : Monitor :=
  { s with name_cache := Lru.store N s.name_cache k name, history := .cache k name :: s.history }

/-- `move_to_end(k)`. -/
def Monitor.hit (s : Monitor) (k : Val) : Monitor :=
  { s with name_cache := s.name_cache.moveToEnd k, history := .hit k :: s.history }

/-- `pop(k, None)`. -/
def Monitor.pop (s : Monitor) (k : Val) : Monitor :=
  { s with name_cache := s.name_cache.erase k, history := .pop k :: s.history }

def cache_name (event : Body) : MonitorM Unit := do
  let uuid := get event "uuid" .none
  let name := get event "name" .none
  if uuid.truthy ∧ name.truthy then
    let k ← ofOutcome (key uuid)
    modify fun s => s.cache env.NAME_CACHE_MAX k name

/-- `self._name_cache.get(uuid)`, and the touch of what it found. -/
def cached_name (k : Val) : MonitorM Val := do
  let s ← MonadState.get
  let cached := (s.name_cache.get? k).getD .none
  if cached ≠ .none then modify fun s => s.hit k
  return cached

def resolve_name (event : Body) : MonitorM Val := do
  let name := get event "name" .none
  if name.truthy then return name
  let k ← ofOutcome (key (get event "uuid" (.str "")))
  cached_name k

/-- `self._name_cache.pop(task_id, None)`. -/
def pop_name (event : Body) : MonitorM Unit := do
  let k ← ofOutcome (key (get event "uuid" (.str "")))
  modify fun s => s.pop k

/-! ## The handlers -/

/-- `self._sink(ev)`. -/
def sink (ev : Event) : MonitorM Unit := do
  let s ← MonadState.get
  modify fun s => { s with sunk := s.sunk ++ [ev] }
  ofOutcome (env.sink s.sunk.length)

/-- Name the task, build its event and pass it to the sink. -/
def emit (event : Body) (build : Val → Except Exn Event) : MonitorM Unit := do
  let name ← resolve_name event
  let ev ← ofOutcome (build name >>= env.event.make)
  sink env ev

def coerce_args (py : Interp) (value : Val) : Val :=
  match value with
  | .list xs | .tuple xs => .list xs
  | .str s =>
    match if s = "" then none else (py.literal_eval s).bind Val.seq? with
    | some xs => .list xs
    | none => .none
  | _ => .none

def coerce_kwargs (py : Interp) (value : Val) : Option (List (String × Val)) :=
  match value with
  | .dict kvs => some kvs
  | .str s => if s = "" then none else (py.literal_eval s).bind Val.dict?
  | _ => none

def on_received (event : Body) : MonitorM Unit := do
  cache_name env event
  emit env event fun name => build_task_received_event env.py env.redaction (get event "uuid" (.str "")) (.val name)
    (coerce_args env.py (get event "args" .none)) (coerce_kwargs env.py (get event "kwargs" .none))
    (get event "queue" .none) .none .none

def on_started (event : Body) : MonitorM Unit := do
  cache_name env event
  emit env event fun name => build_task_started_event env.py env.redaction (get event "uuid" (.str "")) (.val name)
    .none none (get event "hostname" .none) .none

/-- `int(float(runtime_raw) * 1000) if runtime_raw is not None else None`. -/
def runtime_ms (py : Interp) (runtime_raw : Val) : Except Exn Val :=
  if runtime_raw = .none then .ok .none
  else do
    let x ← float_of py runtime_raw
    let ms ← int_of_float (x.scale 1000)
    return .int ms

def on_succeeded (event : Body) : MonitorM Unit := do
  let runtime_ms ← ofOutcome (runtime_ms env.py (get event "runtime" .none))
  emit env event fun name => build_task_succeeded_event env.py env.redaction (get event "uuid" (.str "")) (.val name)
    (get event "result" .none) runtime_ms (get event "hostname" .none) .none
  pop_name event

/-- The last identifier of the dotted path before the first `(`, scanned as the
source's regular expression does. `cur` is the identifier so far, reversed. -/
def class_path (py : Interp) : List Char → List Char → Option String
  | [], _ => none
  | c :: cs, cur =>
    if cur = [] then
      if c.isAlpha || c = '_' then class_path py cs [c] else none
    else if c = '(' then some (String.ofList cur.reverse)
    else if c = '.' then class_path py cs []
    else if py.isalnum c || c = '_' then class_path py cs (c :: cur)
    else none

/-- The class name in the representation of an exception. -/
def exception_type (py : Interp) (exc_str : String) : String :=
  (class_path py (exc_str.toList.take 256) []).getD "Exception"

def on_failed (event : Body) : MonitorM Unit := do
  let exc_str := env.py.strOf ((get event "exception" .none).orElse (.str "Unknown error"))
  emit env event fun name => build_task_failed_event env.py env.redaction (get event "uuid" (.str "")) (.val name)
    ⟨"str", exc_str⟩ (some (exception_type env.py exc_str)) (get event "traceback" .none)
    (get event "hostname" .none) .none
  pop_name event

def on_retried (event : Body) : MonitorM Unit :=
  emit env event fun name => build_task_retried_event env.py env.redaction (get event "uuid" (.str "")) (.val name)
    (get event "exception" .none) .none (get event "hostname" .none) .none

def on_revoked (event : Body) : MonitorM Unit := do
  emit env event fun name => build_task_revoked_event env.py (get event "uuid" (.str "")) (.val name)
    (get event "terminated" (.bool false)) (get event "signum" .none) (get event "expired" (.bool false))
    (get event "hostname" .none) .none
  pop_name event

def body : Handler → Body → MonitorM Unit
  | .received => on_received env
  | .started => on_started env
  | .succeeded => on_succeeded env
  | .failed => on_failed env
  | .retried => on_retried env
  | .revoked => on_revoked env

/-- A handler in its `safe_boundary`, which absorbs what the body raises. -/
def handle (h : Handler) (event : Body) : MonitorM Unit := do
  let completed ← tryExcept (do body env h event; return true) fun _ => return false
  modify fun s => s.record (.handled h event completed)

/-! ## The consumer callback -/

/-- `type_handlers.get(type)`. -/
def type_handler (type : Val) : Option Handler :=
  match type with
  | .str "task-started" => some .started
  | .str "task-succeeded" => some .succeeded
  | .str "task-failed" => some .failed
  | .str "task-retried" => some .retried
  | .str "task-revoked" => some .revoked
  | _ => none

/-- One element of a message; only a dictionary has a `get`. -/
def dispatch_event (ev : Val) : MonitorM Unit :=
  match ev with
  | .dict event =>
    if env.hostname_filter.any fun accepts => !accepts (get event "hostname" (.str "")) then pure ()
    else do
      let _ ← ofOutcome (key (get event "type" (.str "")))
      match type_handler (get event "type" (.str "")) with
      | some h => handle env h event
      | none => pure ()
  | _ => throw ⟨.AttributeError, "AttributeError", "object has no attribute 'get'"⟩

def dispatch_events : List Val → MonitorM Unit
  | [] => pure ()
  | ev :: evs => do
    dispatch_event env ev
    dispatch_events evs

/-- A message, and what acknowledging it does. -/
structure Delivery where
  body : Val
  ack : Except Exn Unit

def Delivery.events (d : Delivery) : List Val :=
  match d.body with
  | .list evs => evs
  | ev => [ev]

/-- `with contextlib.suppress(Exception): message.ack()`. -/
def ack (d : Delivery) : MonitorM Unit := do
  modify fun s => s.record .acked
  tryExcept (ofOutcome d.ack) fun _ => pure ()

def dispatch (d : Delivery) : MonitorM Unit := do
  tryExcept (dispatch_events env d.events) fun _ => modify fun s => s.poison
  ack d

/-! ## Runs -/

/-- The monitor after the handlers were called one after another. -/
def handleAll : List (Handler × Body) → Monitor → Monitor
  | [], s => s
  | (h, event) :: calls, s => handleAll calls (final (handle env h event s))

/-- The monitor after the messages were delivered one after another. -/
def deliverAll : List Delivery → Monitor → Monitor
  | [], s => s
  | d :: ds, s => deliverAll ds (final (dispatch env d s))

end Z4jCelery.Events.Broker
