import Z4jCelery.Core
/-!
# Worker details and health

`get_worker_details` merges five `inspect` replies into one dictionary of
workers, on a connection of its own. `get_health` caches the details for the
heartbeat and adds what a broker connection tells of the queues.

`ops` records what the adapter did with its connections; nothing reads it.
-/

namespace Z4jCelery.Engine.Workers

open Py Z4jCelery.Core Lib

/-! ## The application -/

/-- The inspect calls, named as the sections of a worker's details. -/
inductive Inspect where
  | stats
  | active
  | active_queues
  | registered
  | conf
  deriving DecidableEq

def Inspect.section_name : Inspect → String
  | .stats => "stats"
  | .active => "active"
  | .active_queues => "active_queues"
  | .registered => "registered"
  | .conf => "conf"

/-- What an inspect call returns: nothing, one value for each worker, or a
truthy object without `items`. -/
inductive Reply where
  | nothing
  | workers (d : Dict String Val)
  | other

/-- `(reply or {}).items()`. -/
def Reply.items : Reply → Except Exn (List (String × Val))
  | .nothing => .ok []
  | .workers d => .ok d.items
  | .other => .error ⟨.AttributeError, "AttributeError", "object has no attribute 'items'"⟩

abbrev Inspector := Inspect → Except Exn Reply

/-- A write connection. `transport` is what reading the attribute does, and then
reading its `driver_type`; the last two are what assigning the options and
releasing the connection do. -/
structure Connection where
  id : Nat
  transport_options : Except Exn Val
  transport : Except Exn (Except Exn Val)
  set_transport_options : Except Exn Unit
  release : Except Exn Unit

/-- A redis client, and a channel: what they say of a queue's depth. -/
structure Client where
  llen : Except Exn (String → Except Exn Val)

structure Channel where
  queue_declare : Except Exn (String → Except Exn Val)

/-- A read connection: its transport's `client`, and its `channel` method. -/
structure ReadConnection where
  transport : Except Exn (Except Exn Client)
  channel : Except Exn (Except Exn Channel)
  release : Except Exn Unit

/-- A declared queue: its `name` attribute, and `str(q)`. -/
structure QueueDecl where
  name : Except Exn String
  str : String

/-- What the Celery application answers during one call. -/
structure App where
  py : Interp
  connection_for_write : Except Exn Connection
  inspect : Option String → Except Exn Inspector
  connection_for_read : Except Exn ReadConnection
  broker_url : Except Exn Val
  task_queues : Except Exn (List QueueDecl)
  task_default_queue : Except Exn String

/-! ## The adapter -/

/-- The last three are a heartbeat's read connection, and the queues that it is
asked for. -/
inductive Op where
  | opened (conn : Nat)
  | set_transport_options (conn : Nat) (options : List (String × Val))
  | inspect (conn : Nat) (destination : Option String)
  | call (conn : Nat) (call : Inspect)
  | released (conn : Nat)
  | opened_read
  | probed (queue : String)
  | released_read
  deriving DecidableEq

/-- Worker, then section. -/
abbrev Details := List (String × List (String × Val))

structure Adapter where
  worker_hostname : Option String
  last_worker_stats_at : Rat
  cached_worker_stats : Details
  ops : List Op

abbrev AdapterM := PyM Adapter

/-- The body of a function with the local variable `result`. -/
abbrev LocalM := PyM (Adapter × Details)

/-- `result = {}`, the body, `return result`. -/
def returning (body : LocalM Unit) : AdapterM Details := fun a =>
  match body (a, []) with
  | .ok _ (a', result) => .ok result a'
  | .error e (a', _) => .error e a'

def record (op : Op) : LocalM Unit := modify fun (a, result) => ({ a with ops := a.ops ++ [op] }, result)

/-! ## The configuration filter -/

def CONF_ALLOWLIST : List String :=
  ["task_serializer", "result_serializer", "accept_content", "task_default_queue", "worker_concurrency",
    "worker_prefetch_multiplier", "worker_max_tasks_per_child", "worker_max_memory_per_child", "task_acks_late",
    "task_reject_on_worker_lost", "task_time_limit", "task_soft_time_limit", "broker_pool_limit",
    "broker_heartbeat", "timezone", "enable_utc"]

def redact_worker_conf (cfg : Val) : Val :=
  match cfg with
  | .dict kvs => .dict (kvs.filter fun kv => decide (kv.1 ∈ CONF_ALLOWLIST))
  | _ => .dict []

/-! ## The agent's own connection -/

/-- `_AGENT_SOCKET_TIMEOUT`. -/
def AGENT_SOCKET_TIMEOUT : Val := .float (.finite 10)

def is_redis (conn : Connection) : Bool :=
  match conn.transport with
  | .ok driver_type => decide (getattr driver_type = .ok (.str "redis"))
  | .error _ => false

/-- The transport options the agent gives the connection, if it changes them. -/
def agent_options (conn : Connection) : Except Exn (Option (List (String × Val))) := do
  let options ← getattr conn.transport_options
  return match options with
    | .dict kvs =>
      if lookup "socket_timeout" kvs = none ∧ is_redis conn then
        some (Dict.upsertItems "socket_timeout" AGENT_SOCKET_TIMEOUT kvs)
      else none
    | _ => none

/-- What `_agent_broker_connection` does before its `try`. -/
def open_connection (app : App) : LocalM Connection := do
  let conn ← ofOutcome app.connection_for_write
  record (.opened conn.id)
  match ← ofOutcome (agent_options conn) with
  | some options =>
    record (.set_transport_options conn.id options)
    ofOutcome conn.set_transport_options
    return conn
  | none => return conn

/-- `with contextlib.suppress(Exception): conn.release()`. -/
def release (conn : Connection) : LocalM Unit := do
  record (.released conn.id)
  tryExcept (ofOutcome conn.release) fun _ => pure ()

/-- `with _agent_broker_connection(app) as conn: body(conn)`. -/
def agent_broker_connection {α : Type} (app : App) (body : Connection → LocalM α) : LocalM α := do
  let conn ← open_connection app
  withExit (body conn) (release conn)

/-- `app.control.inspect(destination=..., connection=conn)`. -/
def inspect (app : App) (destination : Option String) (conn : Connection) : LocalM Inspector := do
  record (.inspect conn.id destination)
  ofOutcome (app.inspect destination)

/-- One inspect call, as the items of its reply. -/
def call (conn : Connection) (inspector : Inspector) (c : Inspect) : LocalM (List (String × Val)) := do
  record (.call conn.id c)
  let reply ← ofOutcome (inspector c)
  ofOutcome reply.items

/-! ## The details -/

/-- `result.setdefault(worker, {})[section] = data`. -/
def set_section (result : Details) (worker name : String) (data : Val) : Details :=
  Dict.upsertItems worker (Dict.upsertItems name data ((lookup worker result).getD [])) result

/-- What is stored of a worker's value: a configuration is filtered, the rest is
stored as it came. -/
def shown (c : Inspect) (data : Val) : Val :=
  match c with
  | .conf => redact_worker_conf data
  | .stats | .active | .active_queues | .registered => data

/-- The loop over the items of a reply. -/
def merge (c : Inspect) (items : List (String × Val)) (result : Details) : Details :=
  items.foldl (fun result kv => set_section result kv.1 c.section_name (shown c kv.2)) result

/-- One inspect call, and its section of every worker that replied. -/
def collect (conn : Connection) (inspector : Inspector) (c : Inspect) : LocalM Unit := do
  let items ← call conn inspector c
  modify fun (a, result) => (a, merge c items result)

/-- `[hostname] if hostname else None`. -/
def destination (hostname : Option String) : Option String := hostname.filter (· ≠ "")

def get_worker_details (app : App) (hostname : Option String) : AdapterM Details :=
  returning (tryExcept (agent_broker_connection app fun conn => do
      let inspector ← inspect app (destination hostname) conn
      collect conn inspector .stats
      collect conn inspector .active
      collect conn inspector .active_queues
      collect conn inspector .registered
      collect conn inspector .conf)
    fun _ => pure ())

/-- The single-broadcast fallback; the replies are merged once the connection is
released. -/
def worker_stats_basic (app : App) : AdapterM Details :=
  returning (tryExcept (do
      let items ← agent_broker_connection app fun conn => do
        let inspector ← inspect app none conn
        call conn inspector .stats
      modify fun (a, result) => (a, merge .stats items result))
    fun _ => pure ())

/-! ## Health -/

def refresh_worker_stats (app : App) (now : Rat) : AdapterM Unit :=
  tryExcept (do
      let a ← MonadState.get
      let stats ← match destination a.worker_hostname with
        | some hostname => get_worker_details app (some hostname)
        | none => worker_stats_basic app
      modify fun a => { a with cached_worker_stats := stats }
      modify fun a => { a with last_worker_stats_at := now })
    fun _ => pure ()

def detect_broker_type (app : App) : String :=
  match app.broker_url with
  | .error _ => "unknown"
  | .ok broker_url =>
    let url := lower (app.py.strOf (broker_url.orElse (.str "")))
    if contains url "redis" then "redis"
    else if contains url "amqp" ∨ contains url "rabbit" then "amqp"
    else if contains url "sqs" then "sqs"
    else "unknown"

def known_queues (app : App) : List String :=
  let names : Except Exn (List String) := do
    let queues ← app.task_queues
    if queues ≠ [] then queues.mapM fun q => getattr_or q.str q.name
    else return [← app.task_default_queue]
  match names with
  | .ok names => names
  | .error _ => ["celery"]

/-- The depths of the queues that a probe answers for. -/
def probe_depths (probe : String → Except Exn Val) (queues : List String) : List (String × Val) :=
  queues.foldl (fun depths queue =>
    match probe queue with
    | .ok depth => Dict.upsertItems queue depth depths
    | .error _ => depths) []

structure Health where
  broker_type : String
  broker_connected : Bool
  queue_depths : List (String × Val)
  broker_error : Option String
  worker_details : Option Details

/-- How the connection is asked for a queue's depth: by `LLEN` where the transport
has a `client`, else by a passive declaration on a channel. -/
def depth_probe (conn : ReadConnection) : Except Exn (Option (String → Except Exn Val)) := do
  let transport ← conn.transport
  if ← hasattr transport then
    let client ← transport
    return some fun queue => client.llen.bind fun llen => llen queue
  else if ← hasattr conn.channel then
    match conn.channel.bind fun channel => channel with
    | .ok channel => return some fun queue => channel.queue_declare.bind fun declare => declare queue
    | .error _ => return none
  else return none

/-- The body of the `with` block. -/
def connection_depths (app : App) (conn : ReadConnection) : Except Exn (List (String × Val)) := do
  match ← depth_probe conn with
  | some probe => return probe_depths probe (known_queues app)
  | none => return []

/-- The broker half of the report. -/
def broker_health (app : App) : Health :=
  let health : Health := ⟨detect_broker_type app, false, [], none, none⟩
  let failed (health : Health) (exc : Exn) : Health := { health with broker_error := some (head exc.msg 200) }
  match app.connection_for_read with
  | .error exc => failed health exc
  | .ok conn =>
    let health := { health with broker_connected := true }
    match connection_depths app conn with
    | .error exc =>
      match conn.release with
      | .ok _ => failed health exc
      | .error exc' => failed health exc'
    | .ok depths =>
      let health := { health with queue_depths := depths }
      match conn.release with
      | .ok _ => health
      | .error exc => failed health exc

/-- What the broker half does with its connection. -/
def read_ops (app : App) : List Op :=
  match app.connection_for_read with
  | .error _ => []
  | .ok conn =>
    let asked := match depth_probe conn with
      | .ok (some _) => known_queues app
      | .ok none | .error _ => []
    [.opened_read] ++ asked.map .probed ++ [.released_read]

def get_health (app : App) (now : Rat) : AdapterM Health := do
  let health := broker_health app
  modify fun a => { a with ops := a.ops ++ read_ops app }
  let a ← MonadState.get
  if now - a.last_worker_stats_at > 60 then refresh_worker_stats app now
  let a ← MonadState.get
  return if a.cached_worker_stats ≠ [] then { health with worker_details := some a.cached_worker_stats } else health

end Z4jCelery.Engine.Workers
