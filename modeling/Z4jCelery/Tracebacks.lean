import Z4jCelery.Engine.Reconcile
import Z4jCelery.Events.Broker.TwoRuns
import Z4jCelery.Events.Signals
/-!
# What leaves the adapter of a traceback

A traceback leaves by a signal, by a broker event, or by a reconciliation. The
two events carry what redaction leaves of its tail; a reconciliation carries
the tail.
-/

namespace Z4jCelery.Tracebacks

open Py Z4jCelery.Core Events

/-- What redaction leaves of the last `limit` characters. -/
def scrubbed_tail (redaction : RedactionEngine) (limit : Int) (traceback : String) : Val :=
  redaction.scrub (.str (Mapper.str_tail traceback limit))

/-- The only trace of a traceback in a failed event. -/
theorem build_task_failed_event_str (py : Interp) (redaction : RedactionEngine) (task_id : Val) (task : TaskArg)
    (exception : Mapper.Raised) (exception_type : Option String) (t : String) (worker queue : Val) :
    Mapper.build_task_failed_event py redaction task_id task exception exception_type (.str t) worker queue =
      (Mapper.resolve_task_name py task none task_id queue).map fun task_name =>
        Mapper.event .task_failed task_id task task_name queue worker
          [("exception", .str (if exception_type.getD "" ≠ "" then exception_type.getD "" else exception.type_name)),
            ("exception_message", redaction.scrub (.str exception.text)),
            ("traceback", scrubbed_tail redaction Mapper.TRACEBACK_MAX_CHARS t)] := by
  have htail : Mapper.traceback_tail (.str t) Mapper.TRACEBACK_MAX_CHARS =
      .ok (.str (Mapper.str_tail t Mapper.TRACEBACK_MAX_CHARS)) := rfl
  rw [Mapper.build_task_failed_event, htail, scrubbed_tail]
  -- The text is of no account, and expensive to compute with.
  generalize Mapper.str_tail t Mapper.TRACEBACK_MAX_CHARS = tail
  cases Mapper.resolve_task_name py task none task_id queue <;> rfl

/-! ## Signals -/

section Signals
open Signals

/-- The traceback that the handler reads from a failure. -/
def HasTraceback (f : Failure) (t : String) : Prop :=
  ∃ exception, f.exception = some exception ∧ failure_traceback f exception = .ok (.str t)

/-- Failures that differ only in their tracebacks. -/
structure SameFailure (f f' : Failure) : Prop where
  task_id : f.task_id = f'.task_id
  sender : f.sender = f'.sender
  raised : f.exception.map Exception.raised = f'.exception.map Exception.raised

/-- Signals that differ only in tracebacks with the same redacted tail. -/
def PairedSignals (redaction : RedactionEngine) (signal signal' : Signal) : Prop :=
  signal = signal' ∨ ∃ f f' t t', signal = .failure f ∧ signal' = .failure f' ∧ SameFailure f f' ∧
    HasTraceback f t ∧ HasTraceback f' t' ∧ scrubbed_tail redaction Mapper.TRACEBACK_MAX_CHARS t =
      scrubbed_tail redaction Mapper.TRACEBACK_MAX_CHARS t'

variable {env : Signals.Env}

theorem on_failure_eq {f : Failure} {exception : Exception} (he : f.exception = some exception) {t : String}
    (ht : failure_traceback f exception = .ok (.str t)) :
    on_failure env f = emit env (Mapper.build_task_failed_event env.py env.redaction (task_id_of env f.task_id)
      f.sender exception.raised none (.str t) .none .none) := by
  rw [on_failure, he]
  simp only [ht]
  rfl

theorem handle_paired {signal signal' : Signal} (h : PairedSignals env.redaction signal signal') :
    Signals.handle env signal = Signals.handle env signal' := by
  rcases h with rfl | ⟨f, f', t, t', rfl, rfl, hsame, ⟨exception, he, ht⟩, ⟨exception', he', ht'⟩, hs⟩
  · rfl
  · have hraised : exception.raised = exception'.raised := by
      have h := hsame.raised
      rw [he, he'] at h
      exact Option.some.inj h
    have hbody : Signals.body env (.failure f) = Signals.body env (.failure f') := by
      show on_failure env f = on_failure env f'
      rw [on_failure_eq he ht, on_failure_eq he' ht', build_task_failed_event_str, build_task_failed_event_str, hs,
        hsame.task_id, hsame.sender, hraised]
    rw [Signals.handle, Signals.handle, hbody]

theorem handleAll_paired {signals signals' : List Signal}
    (h : List.Forall₂ (PairedSignals env.redaction) signals signals') (s : Hooks) :
    Signals.handleAll env signals s = Signals.handleAll env signals' s := by
  induction h generalizing s with
  | nil => rfl
  | cons hsignal _ ih => rw [Signals.handleAll, Signals.handleAll, handle_paired hsignal, ih]

end Signals

/-! ## Broker events -/

section Broker
open Broker

/-- Failures that differ only in tracebacks with the same redacted tail. -/
def PairedFailures (redaction : RedactionEngine) (h : Handler) (event event' : Body) : Prop :=
  h = .failed ∧ SameBut "traceback" event event' ∧ ∃ t t', lookup "traceback" event = some (.str t) ∧
    lookup "traceback" event' = some (.str t') ∧
    scrubbed_tail redaction Mapper.TRACEBACK_MAX_CHARS t = scrubbed_tail redaction Mapper.TRACEBACK_MAX_CHARS t'

theorem pairedFailures_interchangeable {env : Broker.Env} (h : Handler) (event event' : Body)
    (hp : PairedFailures env.redaction h event event') : Interchangeable env h event event' := by
  obtain ⟨rfl, he, t, t', ht, ht', hs⟩ := hp
  refine ⟨he.get_eq (by decide) _, he.get_eq (by decide) _, ?_⟩
  have htraceback : Py.get event "traceback" .none = .str t := by rw [Py.get, ht]; rfl
  have htraceback' : Py.get event' "traceback" .none = .str t' := by rw [Py.get, ht']; rfl
  simp only [Broker.body, on_failed, Broker.emit, htraceback, htraceback', build_task_failed_event_str, hs,
    he.get_eq (l := "exception") (by decide), he.get_eq (l := "uuid") (by decide),
    he.get_eq (l := "hostname") (by decide), he.resolve_name_eq (by decide) (by decide), he.pop_name_eq (by decide)]

end Broker

/-! ## Reconciliation -/

section Reconcile
open Engine.Reconcile

/-- A result whose traceback is `t`. -/
def with_traceback (res : AsyncResult) (t : String) : AsyncResult := { res with traceback := .ok (.str t) }

theorem str_tail_ne_empty {t : String} (h : t ≠ "") : Mapper.str_tail t TRACEBACK_LIMIT ≠ "" := by
  rw [Mapper.str_tail]
  split
  · exact h
  · intro he
    exact absurd (String.append_eq_empty_iff.1 he).1 (by decide)

/-- The whole answer, of a backend that has the result. -/
theorem reconcile_task_eq (py : Interp) (res : AsyncResult) (t task_id : String) :
    reconcile_task py (fun _ => .ok (with_traceback res t)) task_id =
      .succeed [("task_id", .str task_id), ("engine_state", .str (engine_state py res)),
        ("finished_at", finished_at py res), ("exception", exc_info py (with_traceback res t))] := rfl

theorem exc_info_eq (py : Interp) (res : AsyncResult) (t : String) :
    exc_info py (with_traceback res t) =
      if engine_state py res = "failure" then
        if t = "" then .none else .str (Mapper.str_tail t TRACEBACK_LIMIT)
      else .none := by
  have hstate : engine_state py (with_traceback res t) = engine_state py res := rfl
  rw [exc_info, hstate]
  simp only [with_traceback, Interp.strOf_str, truthy_str, decide_eq_true_eq, ite_not]

theorem exc_info_same_iff (py : Interp) (res : AsyncResult) (t t' : String) :
    exc_info py (with_traceback res t) = exc_info py (with_traceback res t') ↔
      engine_state py res ≠ "failure" ∨ Mapper.str_tail t TRACEBACK_LIMIT = Mapper.str_tail t' TRACEBACK_LIMIT := by
  have hempty : Mapper.str_tail "" TRACEBACK_LIMIT = "" := by decide
  rw [exc_info_eq, exc_info_eq]
  by_cases hf : engine_state py res = "failure"
  · rw [if_pos hf, if_pos hf, or_iff_right (not_not.2 hf)]
    by_cases ht : t = "" <;> by_cases ht' : t' = ""
    · simp [ht, ht']
    · simpa [ht, ht', hempty] using (str_tail_ne_empty ht').symm
    · simpa [ht, ht', hempty] using str_tail_ne_empty ht
    · simp [ht, ht']
  · simp [hf]

end Reconcile

/-! ## The three paths -/

/-- Whatever the paths send of a traceback is what redaction leaves of its
tail, but for the reconciliation of a failed task, which sends the tail. -/
theorem traceback_redacted_iff (redaction : RedactionEngine) :
    (∀ (env : Signals.Env) signals signals', env.redaction = redaction →
      List.Forall₂ (PairedSignals redaction) signals signals' →
      ∀ s, Signals.handleAll env signals s = Signals.handleAll env signals' s) ∧
    (∀ (env : Broker.Env) ds ds', env.redaction = redaction →
      Broker.PairedDeliveries env (PairedFailures redaction) ds ds' → ∀ s,
      (Broker.deliverAll env ds s).sunk = (Broker.deliverAll env ds' s).sunk) ∧
    (∀ py res t t' task_id,
      scrubbed_tail redaction Engine.Reconcile.TRACEBACK_LIMIT t =
        scrubbed_tail redaction Engine.Reconcile.TRACEBACK_LIMIT t' →
      (Engine.Reconcile.reconcile_task py (fun _ => .ok (with_traceback res t)) task_id =
        Engine.Reconcile.reconcile_task py (fun _ => .ok (with_traceback res t')) task_id ↔
        Engine.Reconcile.engine_state py res ≠ "failure" ∨
          Mapper.str_tail t Engine.Reconcile.TRACEBACK_LIMIT = Mapper.str_tail t' Engine.Reconcile.TRACEBACK_LIMIT)) := by
  refine ⟨?_, ?_, ?_⟩
  · rintro env signals signals' rfl h s
    exact handleAll_paired h s
  · rintro env ds ds' rfl h s
    exact (Broker.deliverAll_alike pairedFailures_interchangeable h ⟨rfl, rfl, rfl⟩).sunk
  · intro py res t t' task_id _
    rw [reconcile_task_eq, reconcile_task_eq, ← exc_info_same_iff]
    simp [CommandResult.succeed]

/-- Two failed tasks with passwords in their tracebacks: redaction leaves the
same of both, and reconciliations tell them apart. -/
theorem reconcile_task_sends_traceback :
    let redaction : RedactionEngine := ⟨fun v => match v with
      | .str s => if startswith s "password=" then .str "[REDACTED]" else v
      | v => v⟩
    let py : Interp := .plain
    let res : Engine.Reconcile.AsyncResult := ⟨.ok (.str "FAILURE"), .ok .none, .ok none⟩
    let report : String → Val := fun t =>
      (Engine.Reconcile.reconcile_task py (fun _ => .ok (with_traceback res t)) "t1").field "exception"
    scrubbed_tail redaction Engine.Reconcile.TRACEBACK_LIMIT "password=hunter2" =
        scrubbed_tail redaction Engine.Reconcile.TRACEBACK_LIMIT "password=swordfish" ∧
      report "password=hunter2" = .str "password=hunter2" ∧ report "password=swordfish" = .str "password=swordfish" := by
  decide

end Z4jCelery.Tracebacks
