import Z4jCelery.Offload
import Z4jCelery.Py.Number
/-!
# Retrying one task

`retry_task_action` looks a task up in the result backend, rebuilds its call
and sends it again. The Celery app is what its connection, its result backend
and `send_task` answer; every call of `send_task` is recorded.
-/

namespace Z4jCelery.Actions.Retry

open Py Z4jCelery.Core Offload

/-- What reading `driver_type` of a transport does. -/
structure Transport where
  driver_type : Except Exn Val

structure Connection where
  transport : Except Exn Transport

/-- A stored result. Each field is what reading the attribute does. -/
structure AsyncResult where
  name : Except Exn Val
  info : Except Exn Val
  args : Except Exn Val
  kwargs : Except Exn Val

/-- A call of `send_task`. -/
structure Publish where
  name : String
  args : List Val
  kwargs : List (String × Val)
  eta : Option Int
  priority : Option Int
  deriving DecidableEq

/-- What `send_task` returns. -/
structure Sent where
  id : Except Exn Val
  task_id : Except Exn Val

structure App where
  connection_for_write : Except Exn Connection
  AsyncResult : String → Except Exn AsyncResult
  send_task : Publish → Except Exn Sent

/-- The arguments of a retry. -/
structure Request where
  task_id : String
  task_name : Option String
  override_args : Option (List Val)
  override_kwargs : Option (List (String × Val))
  eta : Option PyFloat
  priority : Val

def RETRY_TIMEOUT : Nat := 10

/-- `_RetryError`: the retry failed for a reportable reason. -/
def retryError (msg : String) : Exn := ⟨.user "_RetryError", "_RetryError", msg⟩

/-! ## Priority -/

def AMQP_PRIORITY_LABEL_TO_INT : List (String × Int) := [("critical", 9), ("high", 6), ("normal", 3), ("low", 0)]
def REDIS_PRIORITY_LABEL_TO_INT : List (String × Int) := [("critical", 0), ("high", 3), ("normal", 6), ("low", 9)]

def coerce_priority (raw : Val) (driver_type : Option String) : Option Int :=
  match raw with
  | .int i => if 0 ≤ i ∧ i ≤ 255 then some i else none
  | .str s =>
    let mapping := if driver_type = some "redis" then REDIS_PRIORITY_LABEL_TO_INT else AMQP_PRIORITY_LABEL_TO_INT
    lookup (lower (strip s)) mapping
  | _ => none

def write_transport_driver_type (py : Interp) (app : App) : Option String :=
  let raw : Except Exn Val := do
    let connection ← app.connection_for_write
    let transport ← connection.transport
    getattr transport.driver_type
  match raw with
  | .error _ => none
  | .ok raw =>
    let value := lower (strip (py.strOf (raw.orElse (.str ""))))
    if contains value "redis" then some "redis"
    else if value ∈ ["amqp", "pyamqp", "librabbitmq", "rabbitmq"] then some "amqp"
    else if value ≠ "" then some value else none

def resolve_priority (py : Interp) (app : App) (raw : Val) : Option Int :=
  coerce_priority raw (write_transport_driver_type py app)

/-! ## The name -/

/-- A display placeholder is not routing authority. -/
def admissible (name : String) : Bool := name ≠ "" && !startswith name "<unknown" && name ≠ "unknown"

def supplied_name (task_name : Option String) : Option String := task_name.filter admissible

/-- The name that the result backend stored, if any. -/
def resolve_task_name (async_result : AsyncResult) : Except Exn (Option String) := do
  let name ← getattr async_result.name
  if name.str?.any (· ≠ "") then return name.str?
  let info ← getattr async_result.info
  match info with
  | .dict kvs => return ((get kvs "name" .none).orElse (get kvs "task" .none)).str?
  | _ => return none

/-- `supplied_name or _resolve_task_name(async_result)`. -/
def name_source (req : Request) (async_result : AsyncResult) : Except Exn (Option String) :=
  match supplied_name req.task_name with
  | some n => .ok (some n)
  | none => resolve_task_name async_result

/-- The admissible name of the retried task. -/
def retry_name (py : Interp) (req : Request) (async_result : AsyncResult) : Except Exn String := do
  let name ← name_source req async_result
  match name.filter admissible with
  | some n => return n
  | none => throw (retryError ("could not resolve task name for " ++ py.repr (.str req.task_id)))

/-! ## The arguments -/

/-- An override replaces its half of the stored call; a half with neither
source is `none`. -/
def resolve_args (async_result : AsyncResult) (override_args : Option (List Val))
    (override_kwargs : Option (List (String × Val))) : Except Exn (Option (List Val × List (String × Val))) := do
  let stored ← getattr async_result.args
  let stored_kwargs ← getattr async_result.kwargs
  match override_args.or stored.seq?, override_kwargs.or stored_kwargs.dict? with
  | some args, some kwargs => return some (args, kwargs)
  | _, _ => return none

/-! ## The publish -/

/-- The call to send, from what was supplied and what the backend stored. -/
def signature (py : Interp) (app : App) (req : Request) (eta_dt : Option Int) : Except Exn Publish := do
  let priority_int := resolve_priority py app req.priority
  let async_result ← app.AsyncResult req.task_id
  let name ← retry_name py req async_result
  match ← resolve_args async_result req.override_args req.override_kwargs with
  | some (args, kwargs) => return ⟨name, args, kwargs, eta_dt, priority_int⟩
  | none =>
    throw (retryError ("cannot retry " ++ py.repr (.str req.task_id) ++ ": no operator override_args / " ++
      "override_kwargs, and the Celery result backend did not store the original arguments (result_extended is " ++
      "off by default). Enable result_extended so Celery preserves the arguments, or use 'retry with different " ++
      "inputs' to supply them explicitly."))

/-- `getattr(sent, "id", None) or getattr(sent, "task_id", None)`. -/
def sent_id (sent : Sent) : Except Exn Val := do
  let id ← getattr sent.id
  if id.truthy then return id
  getattr sent.task_id

/-- `send_task`, and the id it returned. -/
def submit (app : App) (call : Publish) : Except Exn Val := do
  let new_async ← app.send_task call
  let new_task_id ← sent_id new_async
  if new_task_id.truthy then return new_task_id
  throw (retryError "send_task returned without a task id")

def do_retry_io (py : Interp) (app : App) (req : Request) (eta_dt : Option Int) :
    PyM (List Publish) (String × String × Option Int) := do
  let call ← ofOutcome (signature py app req eta_dt)
  modify (· ++ [call])
  let new_task_id ← ofOutcome (submit app call)
  return (call.name, py.strOf new_task_id, call.priority)

/-! ## The start time -/

def ETA_MAX_PAST_SECONDS : Int := 60
def ETA_MAX_FUTURE_SECONDS : Int := 365 * 24 * 3600

/-- A start time within the window around `now`. Whole microseconds compare to
these bounds as `total_seconds()` does. -/
def eta_from_timestamp (py : Interp) (now : Int) (eta : Option PyFloat) : Except Exn (Option Int) :=
  match eta with
  | none => .ok none
  | some x =>
    match fromtimestamp x with
    | .error _ =>
      .error ⟨.ValueError, "ValueError",
        "retry eta " ++ py.repr (.float x) ++ " cannot be parsed as a POSIX timestamp"⟩
    | .ok target =>
      let delta := target - now
      if delta < -ETA_MAX_PAST_SECONDS * MICROS then
        .error ⟨.ValueError, "ValueError", "retry eta is " ++ total_seconds_text (-delta) ++
          "s in the past (max allowed: " ++ toString ETA_MAX_PAST_SECONDS ++ "s)"⟩
      else if ETA_MAX_FUTURE_SECONDS * MICROS < delta then
        .error ⟨.ValueError, "ValueError", "retry eta is " ++ total_seconds_text delta ++
          "s in the future (max allowed: " ++ toString ETA_MAX_FUTURE_SECONDS ++ "s = 365 days)"⟩
      else .ok (some target)

/-! ## The action -/

/-- What the action answers to an exception of the offloaded call. -/
def retry_failure (exc : Exn) : CommandResult :=
  if exc.isa offloadTimeoutError.cls then
    indeterminate_timeout_result "retry" RETRY_TIMEOUT "the task may still have been re-enqueued"
  else if exc.isa (retryError "").cls then .fail exc.msg
  else .fail ("send_task failed: " ++ exc.msg)

def retry_success (name new_task_id : String) (priority : Option Int) : CommandResult :=
  .succeed [("new_task_id", .str new_task_id), ("task_name", .str name),
    ("priority", match priority with
      | some i => .int i
      | none => .none)]

/-- The answer, and every call of `send_task`: those of a thread that outlives
the timeout too. -/
def retry_task_action (py : Interp) (app : App) (timing : Timing) (now : Int) (req : Request) :
    CommandResult × List Publish :=
  match eta_from_timestamp py now req.eta with
  | .error exc => (.fail ("invalid eta: " ++ exc.msg), [])
  | .ok eta_dt =>
    match offload timing (do_retry_io py app req eta_dt) [] with
    | .ok (name, new_task_id, priority) calls => (retry_success name new_task_id priority, calls)
    | .error exc calls => (retry_failure exc, calls)

end Z4jCelery.Actions.Retry
