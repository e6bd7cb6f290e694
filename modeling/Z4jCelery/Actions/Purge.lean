import Z4jCelery.Offload
import Z4jCelery.Py.Number
/-!
# Purging a queue

`purge_queue_action` empties a queue after a chain of guards: the depth probe,
the threshold and the confirmation token, or `force`. The broker is a state
that `queue_purge` may change; every call on a channel is recorded.
-/

namespace Z4jCelery.Actions.Purge

open Py Z4jCelery.Core Offload

/-! ## The broker -/

/-- A call on a channel. -/
inductive Op where
  | queue_declare (queue : String)
  | llen (queue : String)
  | queue_purge (queue : String)
  | queue_delete (queue : String)
  deriving DecidableEq

structure Broker (β : Type) where
  state : β
  ops : List Op

/-- A `redis` client. -/
structure Client where
  llen : Except Foreign (String → Except Foreign Val)

/-- A channel to probe. `queue_declare` is what reading the attribute gives:
nothing callable, or a passive declaration, whose answer has a
`message_count`. -/
structure ReadChannel where
  queue_declare : Except Foreign (Option (String → Except Foreign (Except Foreign Val)))
  client : Except Foreign (Option Client)

/-- A channel to purge: the call may change the broker, and then return or
raise. -/
structure WriteChannel (β : Type) where
  queue_purge : Except Foreign (String → β → Except Foreign Val × β)

/-- `release` is what leaving the `with` block does. -/
structure Connection (χ : Type) where
  default_channel : Except Foreign χ
  release : Except Foreign Unit

/-- What the action meets: the environment, the token check, the broker. -/
structure Env (β Secret : Type) where
  py : Interp
  environ : String → Option String
  decode_agent_hmac_secret : String → Except Foreign Secret
  verify_purge_confirm_token : String → String → Val → Option Secret → Bool → Except Foreign (Bool × Bool)
  accept_legacy_from_env : Bool
  connection_for_read : Except Foreign (Connection ReadChannel)
  connection_for_write : Except Foreign (Connection (WriteChannel β))
  probe_timing : Timing
  purge_timing : Timing

def PURGE_TIMEOUT : Nat := 10

variable {β Secret : Type}

def call (op : Op) : PyM (Broker β) Unit := modify fun b => { b with ops := b.ops ++ [op] }

/-- `with connection as conn: body(conn.default_channel)`. -/
def with_channel {χ α : Type} (connection : Except Foreign (Connection χ)) (body : χ → PyM (Broker β) α) :
    PyM (Broker β) α := do
  let conn ← ofOutcome (foreign connection)
  withExit (do
      let channel ← ofOutcome (foreign conn.default_channel)
      body channel)
    (ofOutcome (foreign conn.release))

/-! ## The environment -/

def resolve_agent_secret (env : Env β Secret) : Except Exn (Option Secret) :=
  match (env.environ "Z4J_HMAC_SECRET").filter (· ≠ "") with
  | none => .ok none
  | some raw =>
    match foreign (env.decode_agent_hmac_secret raw) with
    | .ok secret => .ok (some secret)
    | .error exc => if exc.isa .ValueError then .ok none else .error exc

def DEFAULT_PURGE_THRESHOLD : Int := 1000

def purge_threshold (env : Env β Secret) : Int :=
  match (env.environ "Z4J_PURGE_THRESHOLD").filter (· ≠ "") with
  | none => DEFAULT_PURGE_THRESHOLD
  | some raw =>
    match int_of_str env.py raw with
    | some n => max 1 n
    | none => DEFAULT_PURGE_THRESHOLD

/-! ## The two broker interactions -/

/-- The probe by a passive declaration; `none` when it gives no number. -/
def declared_depth (channel : ReadChannel) (queue_name : String) : PyM (Broker β) (Option Val) := do
  let queue_decl ← ofOutcome (getattr_or none (foreign channel.queue_declare))
  match queue_decl with
  | none => return none
  | some queue_decl =>
    call (.queue_declare queue_name)
    let resp ← ofOutcome (foreign (queue_decl queue_name))
    let msg_count ← ofOutcome (getattr (foreign resp))
    return if msg_count.int?.isSome then some msg_count else none

/-- The probe by `LLEN`. -/
def llen_depth (py : Interp) (channel : ReadChannel) (queue_name : String) : PyM (Broker β) (Option Val) := do
  let client ← ofOutcome (getattr_or none (foreign channel.client))
  match client with
  | none => return none
  | some client =>
    if ← ofOutcome (hasattr (foreign client.llen)) then
      let llen ← ofOutcome (foreign client.llen)
      call (.llen queue_name)
      let n ← ofOutcome (foreign (llen queue_name))
      let n ← ofOutcome (int_of py n)
      return some (.int n)
    else return none

def channel_depth (py : Interp) (channel : ReadChannel) (queue_name : String) : PyM (Broker β) (Option Val) := do
  match ← declared_depth channel queue_name with
  | some d => return some d
  | none => llen_depth py channel queue_name

def measure_depth (env : Env β Secret) (queue_name : String) : PyM (Broker β) (Option Val) :=
  tryExcept (with_channel env.connection_for_read fun channel => channel_depth env.py channel queue_name) fun _ => pure none

/-- `_PurgeUnsupported`: the channel does not expose `queue_purge`. -/
def purgeUnsupported : Exn := ⟨.user "_PurgeUnsupported", "_PurgeUnsupported", ""⟩

/-- `channel.queue_purge(queue_name)`: the attribute, then the call. -/
def queue_purge (channel : WriteChannel β) (queue_name : String) : PyM (Broker β) Val := do
  let purge ← ofOutcome (foreign channel.queue_purge)
  call (.queue_purge queue_name)
  let b ← MonadState.get
  let (returned, state) := purge queue_name b.state
  modify fun b => { b with state := state }
  ofOutcome (foreign returned)

/-- `try: channel.queue_purge(queue_name)` / `except AttributeError`. -/
def purge_channel (queue_name : String) (channel : WriteChannel β) : PyM (Broker β) Val :=
  tryExcept (queue_purge channel queue_name) fun exc =>
    throw (if exc.isa .AttributeError then purgeUnsupported else exc)

def do_purge (env : Env β Secret) (queue_name : String) : PyM (Broker β) Val := do
  let purged ← with_channel env.connection_for_write (purge_channel queue_name)
  return match purged.int? with
    | some n => .int n
    | none => .none

/-! ## The refusals -/

def missingToken : CommandResult :=
  .fail ("purge_queue: missing confirm_token. The brain must compute HMAC(queue_name, current_depth) and include it " ++
    "in the command.")

def unknownDepth : CommandResult :=
  .fail ("purge_queue: cannot measure current depth - refusing to purge without confirmation. Pass force=True if " ++
    "absolutely necessary.")

def tooDeep (depth threshold : Int) : CommandResult :=
  .fail ("purge_queue: depth " ++ toString depth ++ " exceeds threshold " ++ toString threshold ++
    "; refusing to mass-delete. Raise Z4J_PURGE_THRESHOLD or use force=True.")

def tokenMismatch : CommandResult :=
  .fail ("purge_queue: confirm_token mismatch. The queue depth changed between brain issue and agent execution, or " ++
    "the command is replayed. Re-issue the command.")

def unsupported : CommandResult :=
  .fail ("purge_queue: kombu channel does not support queue_purge; refusing to fall back to queue_delete (would " ++
    "destroy bindings)")

/-- Why a purge that is not forced is refused, if it is. -/
def refusal (env : Env β Secret) (queue_name : String) (confirm_token : Option String) (depth : Option Val) :
    Except Exn (Option CommandResult) :=
  match confirm_token with
  | none => .ok (some missingToken)
  | some token =>
    match depth with
    | none => .ok (some unknownDepth)
    | some depth =>
      let threshold := purge_threshold env
      let d := depth.int?.getD 0
      if threshold < d then .ok (some (tooDeep d threshold))
      else do
        let secret ← resolve_agent_secret env
        let (accepted, _) ← foreign
          (env.verify_purge_confirm_token token queue_name depth secret env.accept_legacy_from_env)
        return if accepted then none else some tokenMismatch

/-- `force` skips the guards. -/
def guards (env : Env β Secret) (queue_name : String) (confirm_token : Option String) (force : Bool)
    (depth : Option Val) : Except Exn (Option CommandResult) :=
  if force then .ok none else refusal env queue_name confirm_token depth

/-! ## The action -/

def purge_success (queue_name : String) (depth : Option Val) (purged : Val) (force : Bool) : CommandResult :=
  .succeed [("queue", .str queue_name), ("depth_before", depth.getD .none), ("purged", purged), ("force", .bool force)]

/-- What the action answers to an exception of the offloaded purge. -/
def purge_failure (exc : Exn) : CommandResult :=
  if exc.isa purgeUnsupported.cls then unsupported
  else if exc.isa offloadTimeoutError.cls then
    indeterminate_timeout_result "purge_queue" PURGE_TIMEOUT "the queue may still be purged"
  else .fail ("purge_queue failed: " ++ exc.name)

def purge_queue_action (env : Env β Secret) (queue_name : String) (confirm_token : Option String) (force : Bool) :
    PyM (Broker β) CommandResult := do
  let depth ← tryExcept (offload env.probe_timing (measure_depth env queue_name)) fun _ => pure none
  match ← ofOutcome (guards env queue_name confirm_token force depth) with
  | some r => return r
  | none =>
    tryExcept (do
        let purged ← offload env.purge_timing (do_purge env queue_name)
        return purge_success queue_name depth purged force)
      fun exc => return purge_failure exc

end Z4jCelery.Actions.Purge
