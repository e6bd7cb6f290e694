import Z4jCelery.Events.Mapper
import Z4jCelery.Py.Frame
/-!
# The signal hooks

Each handler builds an event from what Celery passes to a signal and hands it
to the sink, in a `safe_boundary` that absorbs what it raises.
-/

namespace Z4jCelery.Events.Signals

open Py Z4jCelery.Core Events Mapper

/-! ## What Celery passes -/

/-- A request object. `attr` is what reading an attribute does, `task` is the
attribute of that name; `items` are its entries when it is a dictionary. -/
structure Request where
  attr : String → Except Exn Val
  task : Except Exn TaskArg
  items : Option (List (String × Val))

/-- `_get(obj, name, default)` of an object, given its attribute and its entry. -/
def obj_get {α : Type} (attr : Except Exn α) (item : Option α) (default : α) : Except Exn α := do
  if ← hasattr attr then getattr_or default attr else return item.getD default

/-- `_get(request, name, default)`. -/
def request_get (request : Option Request) (name : String) (default : Val) : Except Exn Val :=
  match request with
  | none => .ok default
  | some r => obj_get (r.attr name) (r.items.bind (lookup name)) default

/-- `_get(request, "task", None)`. -/
def request_task (request : Option Request) : Except Exn TaskArg :=
  match request with
  | none => .ok (.val .none)
  | some r => obj_get r.task ((r.items.bind (lookup "task")).map .val) (.val .none)

/-- `_get(request, "id", _get(request, "task_id", ""))`. -/
def request_id (request : Option Request) : Except Exn Val := do
  let task_id ← request_get request "task_id" (.str "")
  request_get request "id" task_id

/-- `task or sender`. -/
def task_or (task sender : TaskArg) : TaskArg :=
  match task with
  | .val v => if v.truthy then task else sender
  | .obj t => if t.truth then task else sender

/-- Keyword arguments as `_scrub_kwargs` reads them: `dict(kwargs)`, or none. -/
def kwargs_of (py : Interp) (kwargs : Val) : Except Exn (Option (List (String × Val))) :=
  if kwargs = .none then .ok none else (dict_of py kwargs).map some

/-- A raised exception, and how its own traceback is formatted, if it has one. -/
structure Exception where
  raised : Raised
  traceback : Option String

/-- The `traceback` argument of a failure: a traceback object, as
`format_exception` shows it, a string, or something else. -/
inductive TracebackArg where
  | object (formatted : String)
  | str (s : String)
  | other

/-- The arguments of `task_failure`. `einfo` is what reading the `traceback` of
the exception info does. -/
structure Failure where
  task_id : Val
  sender : TaskArg
  exception : Option Exception
  traceback : TracebackArg
  einfo : Option (Except Exn Val)

inductive Signal where
  | received (request : Option Request)
  | prerun (sender : TaskArg) (task_id : Val) (task : TaskArg) (args kwargs : Val)
  | postrun (sender : TaskArg) (task_id : Val) (task : TaskArg) (retval : Val) (state : Option String)
  | failure (f : Failure)
  | retry (sender : TaskArg) (request : Option Request) (reason einfo : Val) (task_id : Val)
  | revoked (sender : TaskArg) (request : Option Request) (terminated signum expired : Val)

/-! ## The hooks -/

structure Hooks where
  sunk : List Event

/-- What the hooks are built with. `sink` is what the sink does to its `i`-th
event. -/
structure Env where
  py : Interp
  redaction : RedactionEngine
  event : EventModel
  sink : Nat → Except Exn Unit

abbrev HooksM := PyM Hooks

variable (env : Env)

/-- `self.sink(event)`. -/
def sink (ev : Event) : HooksM Unit := do
  let s ← MonadState.get
  modify fun s => { s with sunk := s.sunk ++ [ev] }
  ofOutcome (env.sink s.sunk.length)

/-- Build an event and pass it to the sink. -/
def emit (build : Except Exn Event) : HooksM Unit := do
  let ev ← ofOutcome (build >>= env.event.make)
  sink env ev

/-- `str(task_id or "")`. -/
def task_id_of (task_id : Val) : Val := .str (env.py.strOf (task_id.orElse (.str "")))

/-- `str(v) if v else None`. -/
def optional_str (v : Val) : Val := if v.truthy then .str (env.py.strOf v) else .none

/-- `_get(request, "delivery_info", {}).get("routing_key")`, of a dictionary. -/
def routing_key (request : Option Request) : Except Exn Val := do
  match ← request_get request "delivery_info" (.dict []) with
  | .dict kvs => return get kvs "routing_key" .none
  | _ => return .none

def received_event (request : Option Request) : Except Exn Event := do
  let task_id ← request_id request
  let task ← request_task request
  let args ← request_get request "args" .none
  let kwargs ← request_get request "kwargs" .none
  let queue ← routing_key request
  let parent_id ← request_get request "parent_id" .none
  let root_id ← request_get request "root_id" .none
  let kwargs ← kwargs_of env.py kwargs
  build_task_received_event env.py env.redaction (.str (env.py.strOf task_id)) task args kwargs queue
    (optional_str env parent_id) (optional_str env root_id)

def on_received (request : Option Request) : HooksM Unit :=
  if request.isNone then pure () else emit env (received_event env request)

def on_prerun (sender : TaskArg) (task_id : Val) (task : TaskArg) (args kwargs : Val) : HooksM Unit :=
  emit env do
    let kwargs ← kwargs_of env.py kwargs
    build_task_started_event env.py env.redaction (task_id_of env task_id) (task_or task sender) args kwargs .none .none

def on_postrun (sender : TaskArg) (task_id : Val) (task : TaskArg) (retval : Val) (state : Option String) :
    HooksM Unit :=
  if state ≠ some "SUCCESS" then pure ()
  else emit env (build_task_succeeded_event env.py env.redaction (task_id_of env task_id) (task_or task sender) retval
    .none .none .none)

/-- The traceback of a failure, as text: of the exception info, of the signal,
or of the exception. -/
def failure_traceback (f : Failure) (exception : Exception) : Except Exn Val := do
  let einfo ← match f.einfo with
    | some traceback => getattr traceback
    | none => .ok .none
  match einfo.str? with
  | some s => return .str s
  | none =>
    match f.traceback with
    | .object formatted => return .str formatted
    | .str s => return .str s
    | .other => return (exception.traceback.map Val.str).getD .none

def on_failure (f : Failure) : HooksM Unit :=
  match f.exception with
  | none => pure ()
  | some exception => emit env do
    let traceback ← failure_traceback f exception
    build_task_failed_event env.py env.redaction (task_id_of env f.task_id) f.sender exception.raised none traceback
      .none .none

/-- `task_id` is the keyword argument of that name. -/
def on_retry (sender : TaskArg) (request : Option Request) (reason einfo task_id : Val) : HooksM Unit :=
  emit env do
    let id ← request_id request
    build_task_retried_event env.py env.redaction (.str (env.py.strOf ((id.orElse task_id).orElse (.str "")))) sender
      reason einfo .none .none

def on_revoked (sender : TaskArg) (request : Option Request) (terminated signum expired : Val) : HooksM Unit :=
  emit env do
    let task_id ← request_id request
    build_task_revoked_event env.py (.str (env.py.strOf task_id)) sender terminated signum expired .none .none

def body : Signal → HooksM Unit
  | .received request => on_received env request
  | .prerun sender task_id task args kwargs => on_prerun env sender task_id task args kwargs
  | .postrun sender task_id task retval state => on_postrun env sender task_id task retval state
  | .failure f => on_failure env f
  | .retry sender request reason einfo task_id => on_retry env sender request reason einfo task_id
  | .revoked sender request terminated signum expired => on_revoked env sender request terminated signum expired

/-- A handler in its `safe_boundary`. -/
def handle (s : Signal) : HooksM Unit := tryExcept (body env s) fun _ => pure ()

/-- The hooks after the signals came one after another. -/
def handleAll : List Signal → Hooks → Hooks
  | [], s => s
  | signal :: signals, s => handleAll signals (final (handle env signal s))

end Z4jCelery.Events.Signals
