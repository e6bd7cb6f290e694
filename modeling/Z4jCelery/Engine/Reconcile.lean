import Z4jCelery.Events.Mapper
/-!
# Reconciling a task

`reconcile_task` asks the result backend for the state of a task, and reports
the traceback of one that failed.
-/

namespace Z4jCelery.Engine.Reconcile

open Py Z4jCelery.Core Events

/-- A task's result in the backend: what reading each attribute does.
`date_done` has an `isoformat` or is `None`. -/
structure AsyncResult where
  state : Except Exn Val
  traceback : Except Exn Val
  date_done : Except Exn (Option (Except Exn String))

/-- Celery's states in the brain's taxonomy. -/
def state_map : List (String × String) :=
  [("PENDING", "pending"), ("RECEIVED", "pending"), ("STARTED", "started"), ("SUCCESS", "success"),
    ("FAILURE", "failure"), ("RETRY", "pending"), ("REVOKED", "failure")]

/-- `_safe_str_attr(obj, name, default)`, given what reading the attribute does. -/
def safe_str_attr (py : Interp) (attr : Except Exn Val) (default : String) : String :=
  match getattr attr with
  | .ok v => if v = .none then default else py.strOf v
  | .error _ => default

/-- Longest traceback a reconciliation carries, in characters. -/
def TRACEBACK_LIMIT : Int := 2000

def engine_state (py : Interp) (res : AsyncResult) : String :=
  (lookup (safe_str_attr py res.state "UNKNOWN") state_map).getD "unknown"

/-- The traceback of a failed task, cut to its tail. -/
def exc_info (py : Interp) (res : AsyncResult) : Val :=
  if engine_state py res = "failure" then
    match res.traceback with
    | .ok traceback =>
      if traceback.truthy then .str (Mapper.str_tail (py.strOf traceback) TRACEBACK_LIMIT) else .none
    | .error _ => .none
  else .none

def finished_at (py : Interp) (res : AsyncResult) : Val :=
  if engine_state py res = "success" ∨ engine_state py res = "failure" then
    match res.date_done with
    | .ok (some (.ok isoformat)) => .str isoformat
    | _ => .none
  else .none

def reconcile_task (py : Interp) (async_result : String → Except Exn AsyncResult) (task_id : String) : CommandResult :=
  match async_result task_id with
  | .error exc =>
    .succeed [("task_id", .str task_id), ("engine_state", .str "unknown"), ("finished_at", .none),
      ("exception", .str ("reconcile probe failed: " ++ exc.msg))]
  | .ok res =>
    .succeed [("task_id", .str task_id), ("engine_state", .str (engine_state py res)),
      ("finished_at", finished_at py res), ("exception", exc_info py res)]

end Z4jCelery.Engine.Reconcile
