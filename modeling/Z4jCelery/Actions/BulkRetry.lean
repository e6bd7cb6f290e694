import Z4jCelery.Actions.Retry
/-!
# Retrying many tasks

`bulk_retry_action` retries a capped list of ids one at a time, in batches, and
gives up on a broker that keeps timing out. What the single retries answer is a
parameter: the answer of the `i`-th call.
-/

namespace Z4jCelery.Actions.BulkRetry

open Py Z4jCelery.Core Lib

def BULK_RETRY_HARD_CAP : Int := 10000

def circuit_break_after : Nat := 3

/-- A call of `retry_task_action`. -/
structure Call where
  task_id : String
  task_name : Option String
  priority : Val
  deriving DecidableEq

/-- The arguments of `bulk_retry_action`. -/
structure Request where
  filter : List (String × Val)
  max : Int
  task_ids : Option (List String)
  task_priorities : Option (List (String × Val))

/-- What the single retries answer: the `i`-th call, made with these arguments. -/
abbrev Single := Nat → Call → CommandResult

/-! ## The capped list -/

def ids (req : Request) : List String := req.task_ids.getD []

def effective_cap (req : Request) : Int := min req.max BULK_RETRY_HARD_CAP

def capped (req : Request) : Bool := effective_cap req < (ids req).length

def capped_ids (req : Request) : List String :=
  if capped req then sliceTo (ids req) (effective_cap req) else ids req

/-! ## One retry -/

def task_names (req : Request) : List (String × Val) := ((get req.filter "task_names" .none).dict?).getD []

/-- The call for an id: its own name, when that is a string, and its own
priority. -/
def call_for (req : Request) (tid : String) : Call where
  task_id := tid
  task_name := (get (task_names req) tid .none).str?
  priority := get (req.task_priorities.getD []) tid .none

/-- The new id of a retry that returned one. -/
def new_task_id (single : CommandResult) : Option String :=
  if single.status = .success then (single.field "new_task_id").str? else none

/-- The entry of `failures` for a retry that returned no new id. -/
def failure (single : CommandResult) : String :=
  if single.status = .success ∧ single.result ≠ none then "missing new_task_id"
  else (single.error.filter (· ≠ "")).getD "unknown error"

/-- The local variables of the loop, and the calls it made. -/
structure Loop where
  new_task_ids : Dict String String
  failures : Dict String String
  consecutive_timeouts : Nat
  broker_unhealthy : Bool
  processed : Nat
  calls : List Call

def Loop.start : Loop := ⟨.empty, .empty, 0, false, 0, []⟩

/-- The body of the loop after the call returned. -/
def record (s : Loop) (call : Call) (single : CommandResult) : Loop where
  new_task_ids := match new_task_id single with
    | some new_id => s.new_task_ids.set call.task_id new_id
    | none => s.new_task_ids
  failures := match new_task_id single with
    | some _ => s.failures
    | none => s.failures.set call.task_id (failure single)
  consecutive_timeouts :=
    if single.indeterminate then s.consecutive_timeouts + 1
    else if single.status = .success then 0 else s.consecutive_timeouts
  broker_unhealthy := s.broker_unhealthy
  processed := s.processed + 1
  calls := s.calls ++ [call]

/-! ## The two loops -/

/-- `for tid in batch:`, broken off when the breaker trips. -/
def run_batch (single : Single) (req : Request) : List String → Loop → Loop
  | [], s => s
  | tid :: tids, s =>
    let call := call_for req tid
    let s := record s call (single s.processed call)
    if circuit_break_after ≤ s.consecutive_timeouts then { s with broker_unhealthy := true }
    else run_batch single req tids s

/-- `range(0, n, 100)`. -/
def batch_starts (n : Nat) : List Nat := (List.range ((n + 99) / 100)).map (· * 100)

/-- `for batch_start in starts:`. -/
def run_batches (single : Single) (req : Request) (ids : List String) : List Nat → Loop → Loop
  | [], s => s
  | start :: starts, s =>
    if s.broker_unhealthy then s
    else run_batches single req ids starts (run_batch single req ((ids.drop start).take 100) s)

def run_loops (single : Single) (req : Request) : Loop :=
  run_batches single req (capped_ids req) (batch_starts (capped_ids req).length) Loop.start

/-! ## The answer -/

def str_dict (d : Dict String String) : Val := .dict (d.items.map fun kv => (kv.1, .str kv.2))

structure Summary where
  filter : List (String × Val)
  requested : Nat
  succeeded : Nat
  failed : Nat
  skipped : Nat
  circuit_broken : Bool
  capped : Bool
  new_task_ids : Dict String String
  failures : Dict String String

def Summary.result (m : Summary) : CommandResult :=
  .succeed [("filter", .dict m.filter), ("requested", .int m.requested), ("succeeded", .int m.succeeded),
    ("failed", .int m.failed), ("skipped", .int m.skipped), ("circuit_broken", .bool m.circuit_broken),
    ("capped", .bool m.capped), ("hard_cap", .int BULK_RETRY_HARD_CAP), ("new_task_ids", str_dict m.new_task_ids),
    ("failures", str_dict m.failures)]

def summary (single : Single) (req : Request) : Summary :=
  let s := run_loops single req
  { filter := req.filter
    requested := (capped_ids req).length
    succeeded := s.new_task_ids.length
    failed := s.failures.length
    skipped := (capped_ids req).length - s.processed
    circuit_broken := s.broker_unhealthy
    capped := capped req
    new_task_ids := s.new_task_ids
    failures := s.failures }

def noTaskIds : CommandResult :=
  .fail ("bulk_retry requires an explicit task_ids list in v1; the brain should supply one based on the filter. " ++
    "Broker-walking support lands in Phase 2.")

/-- The answer, and the single retries that were made. -/
def bulk_retry_action (single : Single) (req : Request) : CommandResult × List Call :=
  if ids req = [] then (noTaskIds, [])
  else ((summary single req).result, (run_loops single req).calls)

/-! ## The engine's method -/

/-- The app, the clock and the timing that each single retry meets. -/
structure World where
  app : Nat → Retry.App
  timing : Nat → Offload.Timing
  now : Nat → Int

/-- The retry of a call: no overrides and no start time. -/
def retry_request (call : Call) : Retry.Request := ⟨call.task_id, call.task_name, none, none, none, call.priority⟩

/-- The single retries of `bulk_retry_action`: `retry_task_action` itself. -/
def single_retry (py : Interp) (w : World) (i : Nat) (call : Call) : CommandResult × List Retry.Publish :=
  Retry.retry_task_action py (w.app i) (w.timing i) (w.now i) (retry_request call)

/-- `CeleryEngineAdapter.bulk_retry(filter, max=max)`: the request it builds. -/
def bulk_request (py : Interp) (filter : List (String × Val)) (max : Int) : Request where
  filter := filter
  max := max
  task_ids := match get filter "task_ids" .none with
    | .list xs => some (xs.map py.strOf)
    | _ => none
  task_priorities := (get filter "task_priorities" .none).dict?

def bulk_retry (py : Interp) (w : World) (filter : List (String × Val)) (max : Int) : CommandResult × List Call :=
  bulk_retry_action (fun i call => (single_retry py w i call).1) (bulk_request py filter max)

end Z4jCelery.Actions.BulkRetry
