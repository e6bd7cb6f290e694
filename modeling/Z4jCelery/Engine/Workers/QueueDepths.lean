import Z4jCelery.Engine.Workers.Runs
import Z4jCelery.Actions.Purge.Theorems
/-!
# Two probes of a queue's depth

A heartbeat reports the depths of the known queues, and a purge measures the
depth of its own. Both declare a queue passively, but the heartbeat asks the
transport for a `client` first: kombu's transports have one, the connection
that owns them, and it knows no `llen`. So a heartbeat reports no depth at all
(`broker_health_kombu`).
-/

namespace Z4jCelery.Engine.Workers

open Py Z4jCelery.Core Lib Actions

variable {β Secret : Type}

/-! ## A kombu connection -/

/-- A connection that was reached: the message count of every queue that
exists, and what the passive declaration of any other queue raises. `client` is
what reading it off a channel does, `release` what leaving the connection does. -/
structure Kombu where
  queues : String → Option Nat
  missing : String → Foreign
  client : Except Foreign (Option Purge.Client)
  release : Except Foreign Unit

/-- `queue_declare(queue, passive=True)`. -/
def Kombu.queue_declare (k : Kombu) (queue : String) : Except Foreign Val :=
  match k.queues queue with
  | some count => .ok (.int count)
  | none => .error (k.missing queue)

/-- Reading `llen` off a `Connection`. -/
def no_llen : Exn := ⟨.AttributeError, "AttributeError", "'Connection' object has no attribute 'llen'"⟩

/-- The connection as a heartbeat meets it. -/
def Kombu.read_connection (k : Kombu) : ReadConnection where
  transport := .ok (.ok ⟨.error no_llen⟩)
  channel := .ok (.ok ⟨.ok fun queue => foreign (k.queue_declare queue)⟩)
  release := foreign k.release

def Kombu.channel (k : Kombu) : Purge.ReadChannel where
  queue_declare := .ok (some fun queue => (k.queue_declare queue).map .ok)
  client := k.client

/-- The same connection as a purge meets it. -/
def Kombu.probe_connection (k : Kombu) : Purge.Connection Purge.ReadChannel where
  default_channel := .ok k.channel
  release := k.release

def App.on (app : App) (k : Kombu) : App := { app with connection_for_read := .ok k.read_connection }

def probe_env (env : Purge.Env β Secret) (k : Kombu) : Purge.Env β Secret :=
  { env with connection_for_read := .ok k.probe_connection }

/-! ## The heartbeat's probe -/

theorem probe_depths_ok {probe : String → Except Exn Val} {queue : String} {depth : Val} (h : probe queue = .ok depth)
    (queues : List String) :
    probe_depths probe (queues ++ [queue]) = Dict.upsertItems queue depth (probe_depths probe queues) := by
  simp only [probe_depths, List.foldl_append, List.foldl_cons, List.foldl_nil, h]

theorem probe_depths_error {probe : String → Except Exn Val} {queue : String} {e : Exn} (h : probe queue = .error e)
    (queues : List String) : probe_depths probe (queues ++ [queue]) = probe_depths probe queues := by
  simp only [probe_depths, List.foldl_append, List.foldl_cons, List.foldl_nil, h]

theorem probe_depths_silent {probe : String → Except Exn Val} (h : ∀ queue, ∃ e, probe queue = .error e)
    (queues : List String) : probe_depths probe queues = [] := by
  induction queues using List.reverseRecOn with
  | nil => rfl
  | append_singleton queues queue ih =>
    obtain ⟨e, he⟩ := h queue
    rw [probe_depths_error he, ih]

/-- No depth is reported, whatever the queues hold. -/
theorem broker_health_kombu (app : App) (k : Kombu) : (broker_health (app.on k)).queue_depths = [] := by
  have hdepths : connection_depths (app.on k) k.read_connection = .ok [] :=
    congrArg Except.ok (probe_depths_silent (fun queue => ⟨no_llen, rfl⟩) (known_queues (app.on k)))
  rw [broker_health]
  simp only [App.on] at hdepths ⊢
  rw [hdepths]
  cases k.read_connection.release <;> rfl

/-- A queue that a probe answers for keeps its depth. -/
theorem lookup_probe_depths {probe : String → Except Exn Val} {queue : String} {depth : Val}
    (h : probe queue = .ok depth) {queues : List String} (hmem : queue ∈ queues) :
    lookup queue (probe_depths probe queues) = some depth := by
  induction queues using List.reverseRecOn with
  | nil => cases hmem
  | append_singleton queues q ih =>
    by_cases hq : q = queue
    · subst hq
      rw [probe_depths_ok h, lookup_upsertItems, if_pos rfl]
    · have hin : queue ∈ queues := by
        rcases List.mem_append.1 hmem with hin | hin
        · exact hin
        · exact absurd (List.mem_singleton.1 hin).symm hq
      cases hp : probe q with
      | error e => rw [probe_depths_error hp, ih hin]
      | ok d => rw [probe_depths_ok hp, lookup_upsertItems, if_neg hq, ih hin]

/-- On a transport without a `client`, which kombu has not, the depths that
exist are reported. -/
theorem connection_depths_declared (app : App) (k : Kombu) {e : Exn} (he : e.isa .AttributeError = true) :
    ∃ depths, connection_depths app { k.read_connection with transport := .ok (.error e) } = .ok depths ∧
      ∀ queue ∈ known_queues app, ∀ count, k.queues queue = some count → lookup queue depths = some (.int count) := by
  refine ⟨probe_depths (fun queue => foreign (k.queue_declare queue)) (known_queues app), ?_, ?_⟩
  · have hhas : hasattr (.error e : Except Exn Client) = .ok false := by rw [hasattr, if_pos he]
    simp only [connection_depths, depth_probe, bind, Except.bind, hhas]
    rfl
  · intro queue hqueue count hq
    refine lookup_probe_depths ?_ hqueue
    rw [Kombu.queue_declare, hq]
    rfl

/-! ## The purge's probe -/

theorem channel_depth_kombu (py : Interp) (k : Kombu) (queue : String) (b : Purge.Broker β) :
    outcome (Purge.channel_depth py k.channel queue b) =
      match k.queues queue with
      | some count => .ok (some (.int count))
      | none => .error (k.missing queue).val := by
  have hasked : Purge.declared_depth k.channel queue b =
      (do
        let resp ← ofOutcome (foreign ((k.queue_declare queue).map .ok))
        let msg_count ← ofOutcome (getattr (foreign resp))
        return if msg_count.int?.isSome then some msg_count else none : PyM (Purge.Broker β) (Option Val))
      { b with ops := b.ops ++ [.queue_declare queue] } := rfl
  rw [Purge.channel_depth, bind_apply, hasked, Kombu.queue_declare]
  cases k.queues queue with
  | some count => rfl
  | none => rfl

/-- A purge measures the count of a queue that exists, if the connection can be
left. -/
theorem measure_depth_kombu (env : Purge.Env β Secret) (k : Kombu) (queue : String) (d : Val) (b : Purge.Broker β) :
    outcome (Purge.measure_depth (probe_env env k) queue b) = .ok (some d) ↔
      k.release = .ok () ∧ ∃ count, k.queues queue = some count ∧ d = .int count := by
  have hdepth := channel_depth_kombu env.py k queue b
  have hchannel : Purge.with_channel (probe_env env k).connection_for_read
      (fun channel => Purge.channel_depth (probe_env env k).py channel queue) b =
      withExit (Purge.channel_depth env.py k.channel queue) (ofOutcome (foreign k.release)) b := rfl
  rw [Purge.measure_depth, tryExcept, hchannel]
  cases k.release with
  | error e =>
    rw [show foreign (.error e : Except Foreign Unit) = .error e.val from rfl, withExit_error]
    simp [outcome]
  | ok u =>
    rw [show foreign (.ok u : Except Foreign Unit) = .ok () from rfl, withExit_ok]
    cases hr : Purge.channel_depth env.py k.channel queue b with
    | ok depth b' =>
      rw [hr] at hdepth
      cases hq : k.queues queue with
      | none =>
        rw [hq] at hdepth
        cases hdepth
      | some count =>
        rw [hq] at hdepth
        cases hdepth
        simp [eq_comm]
    | error e b' =>
      rw [hr] at hdepth
      cases hq : k.queues queue with
      | none => simp [outcome]
      | some count =>
        rw [hq] at hdepth
        cases hdepth

/-! ## Agreement -/

/-- The heartbeat reports every depth that a purge measures. -/
def DepthsAgree (app : App) (env : Purge.Env β Secret) (now : Rat) (a : Adapter) (b : Purge.Broker β) : Prop :=
  ∃ health, outcome (get_health app now a) = .ok health ∧
    ∀ queue ∈ known_queues app, ∀ d, outcome (Purge.measure_depth env queue b) = .ok (some d) →
      lookup queue health.queue_depths = some d

/-- The probes agree only where a purge measures nothing: no known queue exists,
or its connection cannot be left. -/
theorem depths_agree_iff (k : Kombu) (app : App) (env : Purge.Env β Secret) (now : Rat) (a : Adapter)
    (b : Purge.Broker β) :
    DepthsAgree (app.on k) (probe_env env k) now a b ↔
      (∀ queue ∈ known_queues app, k.queues queue = none) ∨ ∃ e, k.release = .error e := by
  obtain ⟨ops, hrun⟩ := get_health_apply (app.on k) now a
  have hknown : known_queues (app.on k) = known_queues app := rfl
  rw [DepthsAgree, hrun, hknown]
  constructor
  · rintro ⟨health, hh, hagree⟩
    cases hr : k.release with
    | error e => exact .inr ⟨e, rfl⟩
    | ok u =>
      refine .inl fun queue hqueue => ?_
      cases hq : k.queues queue with
      | none => rfl
      | some count =>
        have hd := hagree queue hqueue _ ((measure_depth_kombu env k queue _ b).2 ⟨hr, count, hq, rfl⟩)
        rw [← Except.ok.inj hh, broker_health_kombu] at hd
        cases hd
  · intro hnone
    refine ⟨_, rfl, fun queue hqueue d hd => ?_⟩
    obtain ⟨hr, count, hq, -⟩ := (measure_depth_kombu env k queue d b).1 hd
    rcases hnone with hmissing | ⟨e, he⟩
    · rw [hmissing queue hqueue] at hq
      cases hq
    · rw [he] at hr
      cases hr

/-- Five messages in the default queue: a purge measures them, and a heartbeat
says that the broker is connected and names no queue. -/
theorem queue_depth_unreported :
    ¬ ∀ (k : Kombu) (app : App) (env : Purge.Env Unit Unit) (now : Rat) (a : Adapter) (b : Purge.Broker Unit),
      DepthsAgree (app.on k) (probe_env env k) now a b := by
  let gone : Foreign := ⟨⟨.other, "NotFound", "NOT_FOUND - no queue"⟩, by simp⟩
  let k : Kombu := ⟨fun queue => if queue = "celery" then some 5 else none, fun _ => gone, .ok none, .ok ()⟩
  let app : App :=
    { py := .plain
      connection_for_write := .error gone.val
      inspect := fun _ => .error gone.val
      connection_for_read := .error gone.val
      broker_url := .ok (.str "amqp://guest@localhost//"), task_queues := .ok [], task_default_queue := .ok "celery" }
  let env : Purge.Env Unit Unit :=
    { py := .plain
      environ := fun _ => none
      decode_agent_hmac_secret := fun _ => .ok ()
      verify_purge_confirm_token := fun _ _ _ _ _ => .ok (false, false)
      accept_legacy_from_env := false
      connection_for_read := .error gone
      connection_for_write := .error gone
      probe_timing := .inTime
      purge_timing := .inTime }
  intro h
  obtain ⟨health, hh, hagree⟩ := h k app env 0 ⟨none, 0, [], []⟩ ⟨(), []⟩
  obtain ⟨ops, hrun⟩ := get_health_apply (app.on k) 0 ⟨none, 0, [], []⟩
  have hdepth : outcome (Purge.measure_depth (probe_env env k) "celery" ⟨(), []⟩) = .ok (some (.int 5)) := rfl
  have hreported := hagree "celery" (by decide) _ hdepth
  rw [hrun] at hh
  rw [← Except.ok.inj hh, broker_health_kombu] at hreported
  cases hreported

end Z4jCelery.Engine.Workers
