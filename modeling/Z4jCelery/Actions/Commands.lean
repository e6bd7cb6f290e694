import Z4jCelery.Actions.Retry.Theorems
import Z4jCelery.Actions.RateLimit
/-!
# Commands that make one broker call

Submitting, retrying and cancelling a task, restarting a worker's pool and
setting a rate limit make at most one call to the broker each, offloaded.
`Command.start` is a command up to that call: it answers at once, or it is
`Offloaded`. The answer is read off what `offload` returns.
-/

namespace Z4jCelery.Actions.Commands

open Py Z4jCelery.Core Offload

/-! ## What the broker is asked -/

/-- A call of a task's `apply_async`, or of `send_task`. -/
structure Message where
  name : String
  args : List Val
  kwargs : List (String × Val)
  queue : Option String
  eta : Option Int
  priority : Option Int
  deriving DecidableEq

inductive Op where
  | apply_async (m : Message)
  | send_task (m : Message)
  | resend (call : Retry.Publish)
  | revoke (task_id : String) (terminate : Bool) (signal : String)
  | pool_restart (destination : List String) (reload : Bool)
  | rate_limit (call : RateLimit.Broadcast)
  deriving DecidableEq

/-- The Celery app: its task registry, what reading the attributes of `control`
gives, and what its calls do. -/
structure App where
  tasks : Except Exn (Option (List String))
  apply_async : Message → Except Exn Retry.Sent
  send_task : Message → Except Exn Retry.Sent
  retry : Retry.App
  revoke : Except Exn (String → Bool → String → Except Exn Unit)
  broadcast : Except Exn (List String → Bool → Except Exn Unit)
  rate_limit : RateLimit.App

/-- A broker call, what the broker does with it, and the answer to the value it
returns. -/
structure Prepared where
  op : Op
  reply : Except Exn Val
  succeed : Val → CommandResult

/-- An offloaded command: the call that its thread prepares, and the answer to an
exception. -/
structure Offloaded where
  prepare : Except Exn Prepared
  fail : Exn → CommandResult

/-- What the thread does; `log` records the call. -/
def Offloaded.thread {σ : Type} (log : Op → σ → σ) (c : Offloaded) : PyM σ CommandResult := do
  let call ← ofOutcome c.prepare
  modify (log call.op)
  let v ← ofOutcome call.reply
  return call.succeed v

def Offloaded.answer (c : Offloaded) (r : Except Exn CommandResult) : CommandResult :=
  match r with
  | .ok result => result
  | .error exc => c.fail exc

/-- The answer to an exception, from the command's own texts. -/
def failure (timeout : CommandResult) (other : Exn → CommandResult) (exc : Exn) : CommandResult :=
  if exc.isa offloadTimeoutError.cls then timeout else other exc

/-! ## The commands -/

structure Submit where
  name : String
  args : List Val
  kwargs : Option (List (String × Val))
  queue : Option String
  eta : Option PyFloat
  priority : Option Int

inductive Command where
  | submit_task (r : Submit)
  | retry_task (r : Retry.Request)
  | cancel_task (task_id : String)
  | restart_worker (worker_name : String)
  | rate_limit (task_name rate : String) (worker_name : Option String)

def SUBMIT_TIMEOUT : Nat := 10
def REVOKE_TIMEOUT : Nat := 10
def BROADCAST_TIMEOUT : Nat := 10

/-- `send_kwargs`. A falsy queue is none. -/
def message (r : Submit) : Except Exn Message := do
  let eta ← match r.eta with
    | some x => (fromtimestamp x).map some
    | none => .ok none
  return ⟨r.name, r.args, r.kwargs.getD [], r.queue.filter (· ≠ ""), eta, r.priority⟩

/-- Through a registered task's `apply_async`; without one, `send_task`. -/
def submit_call (app : App) (r : Submit) : Except Exn Prepared := do
  let m ← message r
  let tasks ← getattr_or none app.tasks
  let succeed := fun new_id => CommandResult.succeed [("task_id", new_id), ("engine", .str "celery")]
  if tasks.any (m.name ∈ ·) then return ⟨.apply_async m, app.apply_async m >>= Retry.sent_id, succeed⟩
  else return ⟨.send_task m, app.send_task m >>= Retry.sent_id, succeed⟩

def submit (app : App) (r : Submit) : Offloaded where
  prepare := submit_call app r
  fail := failure (indeterminate_timeout_result "celery.submit_task" SUBMIT_TIMEOUT "the task may still be enqueued")
    fun exc => .fail exc.msg

def retry (py : Interp) (app : App) (r : Retry.Request) (eta_dt : Option Int) : Offloaded where
  prepare := (Retry.signature py app.retry r eta_dt).map fun call =>
    ⟨.resend call, Retry.submit app.retry call, fun id => Retry.retry_success call.name (py.strOf id) call.priority⟩
  fail := Retry.retry_failure

def cancel (revoke : String → Bool → String → Except Exn Unit) (task_id : String) : Offloaded where
  prepare := .ok ⟨.revoke task_id true "SIGTERM", (revoke task_id true "SIGTERM").map fun _ => .none,
    fun _ => .succeed [("task_id", .str task_id), ("terminated", .bool true)]⟩
  fail := failure (indeterminate_timeout_result "celery_app.control.revoke" REVOKE_TIMEOUT "the task may still be revoked")
    fun exc => .fail ("celery_app.control.revoke failed: " ++ exc.msg)

def restart (broadcast : List String → Bool → Except Exn Unit) (worker_name : String) : Offloaded where
  prepare := .ok ⟨.pool_restart [worker_name] true, (broadcast [worker_name] true).map fun _ => .none,
    fun _ => .succeed [("worker", .str worker_name)]⟩
  fail := failure
    (indeterminate_timeout_result "worker restart broadcast" BROADCAST_TIMEOUT "the pool restart may still be delivered")
    fun exc => .fail ("worker restart broadcast failed: " ++ exc.name)

def limit (broadcast : RateLimit.Broadcast → Except Exn Unit) (task_name rate : String) (worker_name : Option String) :
    Offloaded where
  prepare :=
    let call : RateLimit.Broadcast := ⟨task_name, rate, RateLimit.destination worker_name⟩
    .ok ⟨.rate_limit call, (broadcast call).map fun _ => .none, fun _ => RateLimit.rate_limit_success task_name rate worker_name⟩
  fail := RateLimit.broadcast_failure

/-- A command up to its offloaded call: an answer given at once, or the call. -/
def Command.start (py : Interp) (app : App) (now : Int) : Command → Except CommandResult Offloaded
  | .submit_task r => .ok (submit app r)
  | .retry_task r =>
    match Retry.eta_from_timestamp py now r.eta with
    | .error exc => .error (.fail ("invalid eta: " ++ exc.msg))
    | .ok eta_dt => .ok (retry py app r eta_dt)
  | .cancel_task task_id =>
    match app.revoke with
    | .error exc => .error (.fail ("celery_app.control.revoke failed: " ++ exc.msg))
    | .ok revoke => .ok (cancel revoke task_id)
  | .restart_worker worker_name =>
    match app.broadcast with
    | .error exc => .error (.fail ("worker restart broadcast failed: " ++ exc.name))
    | .ok broadcast => .ok (restart broadcast worker_name)
  | .rate_limit task_name rate worker_name =>
    if task_name = "" then .error RateLimit.missingTask
    else if ¬ RateLimit.RATE_RE_match py rate then .error (RateLimit.invalidRate py rate)
    else match app.rate_limit.rate_limit with
      | .error exc => .error (RateLimit.broadcast_failure exc)
      | .ok call => .ok (limit call task_name rate worker_name)

/-- One command alone: its answer, and its broker calls. -/
def perform (py : Interp) (app : App) (now : Int) (timing : Timing) (c : Command) : CommandResult × List Op :=
  match c.start py app now with
  | .error r => (r, [])
  | .ok o =>
    let r := offload timing (o.thread fun op ops => ops ++ [op]) []
    (o.answer (outcome r), final r)

/-! ## What a thread does -/

theorem thread_apply {σ : Type} (log : Op → σ → σ) (c : Offloaded) (s : σ) :
    c.thread log s = match c.prepare with
      | .error e => .error e s
      | .ok call => match call.reply with
        | .ok v => .ok (call.succeed v) (log call.op s)
        | .error e => .error e (log call.op s) := by
  obtain ⟨prepare, fail⟩ := c
  cases prepare with
  | error e => rfl
  | ok call =>
    obtain ⟨op, reply, succeed⟩ := call
    cases reply <;> rfl

/-! ## The actions on their own -/

/-- A retry is the action of its own module. -/
theorem perform_retry_task (py : Interp) (app : App) (now : Int) (timing : Timing) (r : Retry.Request) :
    perform py app now timing (.retry_task r) = ((Retry.retry_task_action py app.retry timing now r).1,
      (Retry.retry_task_action py app.retry timing now r).2.map .resend) := by
  rw [perform, Command.start, Retry.retry_task_action]
  cases Retry.eta_from_timestamp py now r.eta with
  | error exc => rfl
  | ok eta_dt =>
    simp only
    cases hsig : Retry.signature py app.retry r eta_dt with
    | error e =>
      have hio := Retry.do_retry_io_error hsig []
      have hthread : (retry py app r eta_dt).thread (fun op ops => ops ++ [op]) [] = .error e [] := by
        rw [thread_apply, retry, hsig]
        rfl
      cases timing with
      | inTime => rw [offload_error hio, offload_error hthread]; rfl
      | outlives runs => rw [offload_outlives, offload_outlives, hio, hthread]; cases runs <;> rfl
    | ok call =>
      have hio := Retry.do_retry_io_ok hsig []
      have hthread : (retry py app r eta_dt).thread (fun op ops => ops ++ [op]) [] =
          match Retry.submit app.retry call with
          | .ok v => .ok (Retry.retry_success call.name (py.strOf v) call.priority) [.resend call]
          | .error e => .error e [.resend call] := by
        rw [thread_apply, retry, hsig]
        rfl
      cases hsub : Retry.submit app.retry call with
      | ok v =>
        rw [hsub] at hio hthread
        cases timing with
        | inTime => rw [offload_ok hio, offload_ok hthread]; rfl
        | outlives runs => rw [offload_outlives, offload_outlives, hio, hthread]; cases runs <;> rfl
      | error e =>
        rw [hsub] at hio hthread
        cases timing with
        | inTime => rw [offload_error hio, offload_error hthread]; rfl
        | outlives runs => rw [offload_outlives, offload_outlives, hio, hthread]; cases runs <;> rfl

/-- The broadcast of a rate limit. -/
def Op.limit? : Op → Option RateLimit.Broadcast
  | .rate_limit call => some call
  | _ => none

section Limit
variable {send : RateLimit.Broadcast → Except Exn Unit} {task_name rate : String} {worker_name : Option String}

theorem limit_thread_ok {u : Unit} (h : send ⟨task_name, rate, RateLimit.destination worker_name⟩ = .ok u) :
    (limit send task_name rate worker_name).thread (fun op ops => ops ++ [op]) [] =
      .ok (RateLimit.rate_limit_success task_name rate worker_name)
        [.rate_limit ⟨task_name, rate, RateLimit.destination worker_name⟩] := by
  simp only [thread_apply, limit, h]
  rfl

theorem limit_thread_error {e : Exn} (h : send ⟨task_name, rate, RateLimit.destination worker_name⟩ = .error e) :
    (limit send task_name rate worker_name).thread (fun op ops => ops ++ [op]) [] =
      .error e [.rate_limit ⟨task_name, rate, RateLimit.destination worker_name⟩] := by
  simp only [thread_apply, limit, h]
  rfl

theorem rate_call_ok {b : RateLimit.Broadcast} {u : Unit} (h : send b = .ok u) : RateLimit.call send b [] = .ok u [b] := by
  rw [RateLimit.call, bind_ok (modify_apply _ []), h]
  rfl

theorem rate_call_error {b : RateLimit.Broadcast} {e : Exn} (h : send b = .error e) :
    RateLimit.call send b [] = .error e [b] := by
  rw [RateLimit.call, bind_ok (modify_apply _ []), h]
  rfl

end Limit

/-- And so is setting a rate limit. -/
theorem perform_rate_limit (py : Interp) (app : App) (now : Int) (timing : Timing) (task_name rate : String)
    (worker_name : Option String) :
    RateLimit.rate_limit_action py app.rate_limit timing task_name rate worker_name [] =
      .ok (perform py app now timing (.rate_limit task_name rate worker_name)).1
        ((perform py app now timing (.rate_limit task_name rate worker_name)).2.filterMap Op.limit?) := by
  rw [perform, Command.start, RateLimit.rate_limit_action]
  by_cases hname : task_name = ""
  · rw [if_pos hname, if_pos hname]
    rfl
  · rw [if_neg hname, if_neg hname]
    by_cases hrate : ¬ RateLimit.RATE_RE_match py rate = true
    · rw [if_pos hrate, if_pos hrate]
      rfl
    · rw [if_neg hrate, if_neg hrate, RateLimit.broadcast]
      cases app.rate_limit.rate_limit with
      | error exc => rfl
      | ok send =>
        cases hsend : send ⟨task_name, rate, RateLimit.destination worker_name⟩ with
        | ok u =>
          have hthread := limit_thread_ok hsend
          have hcall := rate_call_ok hsend
          cases timing with
          | inTime =>
            simp only [tryExcept, bind_apply, ofOutcome_ok, pure_apply, offload_ok hcall, offload_ok hthread]
            rfl
          | outlives runs =>
            simp only [tryExcept, bind_apply, ofOutcome_ok, pure_apply, offload_outlives, hcall, hthread]
            cases runs <;> rfl
        | error e =>
          have hthread := limit_thread_error hsend
          have hcall := rate_call_error hsend
          cases timing with
          | inTime =>
            simp only [tryExcept, bind_apply, ofOutcome_ok, pure_apply, offload_error hcall, offload_error hthread]
            rfl
          | outlives runs =>
            simp only [tryExcept, bind_apply, ofOutcome_ok, pure_apply, offload_outlives, hcall, hthread]
            cases runs <;> rfl

end Z4jCelery.Actions.Commands
