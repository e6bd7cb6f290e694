import Z4jCelery.Events.Broker.Redaction
/-!
# The broker path shows what the engine leaves

`shown` is what a handler makes of the payload of an event: what `scrub` leaves
of its arguments, its result, its exception's text and its traceback. The class
that the handler reads in the exception's text is in the event as it is
(`named_class`). Runs whose messages differ only in payloads that agree on both
sink the same events (`stream_scrubbed`).
-/

namespace Z4jCelery.Events.Broker

open Py Z4jCelery.Core Events Mapper Lib

/-- The keys of a handler's payload. -/
def payload : Handler → List String
  | .received => ["args", "kwargs"]
  | .succeeded => ["result"]
  | .failed => ["exception", "traceback"]
  | .retried => ["exception"]
  | .started | .revoked => []

variable (env : Env)

/-- `exc_str` of a failure. -/
def exception_text (event : Body) : String :=
  env.py.strOf ((get event "exception" .none).orElse (.str "Unknown error"))

def shown_traceback (event : Body) : Except Exn Val :=
  (traceback_tail (get event "traceback" .none) TRACEBACK_MAX_CHARS).map fun traceback =>
    if traceback = .none then .none else env.redaction.scrub traceback

def shown_reason (event : Body) : Val :=
  if get event "exception" .none = .none then .none else env.redaction.scrub (get event "exception" .none)

def shown (h : Handler) (event : Body) : List (Except Exn Val) :=
  match h with
  | .received =>
    [scrub_args env.py env.redaction (coerce_args env.py (get event "args" .none)) none,
      scrub_kwargs env.redaction (coerce_kwargs env.py (get event "kwargs" .none)) none]
  | .succeeded => [.ok (reported_result env event)]
  | .failed => [.ok (env.redaction.scrub (.str (exception_text env event))), shown_traceback env event]
  | .retried => [.ok (shown_reason env event)]
  | .started | .revoked => []

/-- The class that a failure names, read in the text of its exception. No engine
scrubs it. -/
def named_class (h : Handler) (event : Body) : Option String :=
  if h = .failed then some (exception_type env.py (exception_text env event)) else none

/-- Events that differ in their payloads only, show the same of them and name the
same class. -/
structure SameShown (h : Handler) (event event' : Body) : Prop where
  outside : ∀ l ∉ payload h, lookup l event = lookup l event'
  shown : shown env h event = shown env h event'
  named_class : named_class env h event = named_class env h event'

variable {env} {h : Handler} {event event' : Body}

theorem SameShown.get_eq (hs : SameShown env h event event') {l : String} (hl : l ∉ payload h) (default : Val) :
    get event l default = get event' l default := by
  simp only [Py.get, hs.outside l hl]

/-! ## The builders -/

/-- The monitor names tasks and knows no metadata. -/
theorem build_received_shown (py : Interp) (redaction : RedactionEngine) (task_id name args : Val)
    (kwargs : Option (List (String × Val))) (queue parent root : Val) :
    build_task_received_event py redaction task_id (.val name) args kwargs queue parent root = (do
      let task_name ← Mapper.resolve_task_name py (.val name) none task_id queue
      let args ← scrub_args py redaction args none
      let kwargs ← scrub_kwargs redaction kwargs none
      return Mapper.event .task_received task_id (.val name) task_name queue .none
        ([("args", args), ("kwargs", kwargs)] ++ entry "parent_task_id" parent ++ entry "root_task_id" root)) := rfl

theorem build_failed_shown (event : Body) (task_id name worker : Val) :
    build_task_failed_event env.py env.redaction task_id (.val name) ⟨"str", exception_text env event⟩
      (some (exception_type env.py (exception_text env event))) (get event "traceback" .none) worker .none = (do
      let task_name ← Mapper.resolve_task_name env.py (.val name) none task_id .none
      let traceback ← shown_traceback env event
      return Mapper.event .task_failed task_id (.val name) task_name .none worker
        [("exception", .str (if exception_type env.py (exception_text env event) ≠ "" then
            exception_type env.py (exception_text env event) else "str")),
          ("exception_message", env.redaction.scrub (.str (exception_text env event))), ("traceback", traceback)]) := by
  rw [build_task_failed_event, shown_traceback]
  cases Mapper.resolve_task_name env.py (.val name) none task_id .none with
  | error e => rfl
  | ok task_name => cases traceback_tail (get event "traceback" .none) TRACEBACK_MAX_CHARS <;> rfl

theorem build_retried_shown (event : Body) (task_id name worker : Val) :
    build_task_retried_event env.py env.redaction task_id (.val name) (get event "exception" .none) .none worker .none = (do
      let task_name ← Mapper.resolve_task_name env.py (.val name) none task_id .none
      return Mapper.event .task_retried task_id (.val name) task_name .none worker [("reason", shown_reason env event)]) := by
  rw [build_task_retried_event]
  simp only [ne_eq, not_true_eq_false, and_false, if_false, shown_reason]

/-! ## The handlers -/

theorem SameShown.resolve_name_eq (hs : SameShown env h event event') : resolve_name event = resolve_name event' := by
  unfold resolve_name
  simp only [hs.get_eq (l := "name") (by cases h <;> decide), hs.get_eq (l := "uuid") (by cases h <;> decide)]

theorem SameShown.cache_name_eq (hs : SameShown env h event event') : cache_name env event = cache_name env event' := by
  unfold cache_name
  simp only [hs.get_eq (l := "name") (by cases h <;> decide), hs.get_eq (l := "uuid") (by cases h <;> decide)]

theorem SameShown.pop_name_eq (hs : SameShown env h event event') : pop_name event = pop_name event' := by
  unfold pop_name
  simp only [hs.get_eq (l := "uuid") (by cases h <;> decide)]

theorem SameShown.emit_eq (hs : SameShown env h event event') {build build' : Val → Except Exn Event}
    (hbuild : ∀ name, build name = build' name) : emit env event build = emit env event' build' := by
  unfold emit
  simp only [hs.resolve_name_eq, hbuild]

theorem body_shown (hs : SameShown env h event event') : body env h event = body env h event' := by
  have hshown := hs.shown
  cases h with
  | received =>
    simp only [shown, List.cons.injEq, and_true] at hshown
    simp only [body, on_received, hs.cache_name_eq]
    refine congrArg _ (funext fun _ => hs.emit_eq fun name => ?_)
    simp only [build_received_shown, hs.get_eq (l := "uuid") (by decide), hs.get_eq (l := "queue") (by decide), hshown]
  | started =>
    have hsame : ∀ l default, get event l default = get event' l default := fun l => hs.get_eq List.not_mem_nil
    simp only [body, on_started, hs.cache_name_eq]
    exact congrArg _ (funext fun _ => hs.emit_eq fun name => by simp only [hsame])
  | succeeded =>
    simp only [shown, List.cons.injEq, Except.ok.injEq, and_true] at hshown
    simp only [body, on_succeeded, hs.get_eq (l := "runtime") (by decide), hs.pop_name_eq]
    refine congrArg _ (funext fun ms => congrArg (· >>= _) (hs.emit_eq fun name => ?_))
    simp only [build_task_succeeded_event, hs.get_eq (l := "uuid") (by decide), hs.get_eq (l := "hostname") (by decide),
      scrub_result_eq, hshown]
  | failed =>
    simp only [shown, List.cons.injEq, Except.ok.injEq, and_true] at hshown
    obtain ⟨htext, htraceback⟩ := hshown
    have htype := hs.named_class
    simp only [named_class, if_true, Option.some.injEq] at htype
    simp only [body, on_failed, hs.pop_name_eq]
    refine congrArg (· >>= _) (hs.emit_eq fun name => ?_)
    refine (build_failed_shown event _ name _).trans (Eq.trans ?_ (build_failed_shown event' _ name _).symm)
    simp only [hs.get_eq (l := "uuid") (by decide), hs.get_eq (l := "hostname") (by decide), htype, htext, htraceback]
  | retried =>
    simp only [shown, List.cons.injEq, Except.ok.injEq, and_true] at hshown
    refine hs.emit_eq fun name => ?_
    simp only [build_retried_shown, hs.get_eq (l := "uuid") (by decide), hs.get_eq (l := "hostname") (by decide), hshown]
  | revoked =>
    have hsame : ∀ l default, get event l default = get event' l default := fun l => hs.get_eq List.not_mem_nil
    simp only [body, on_revoked, hs.pop_name_eq]
    exact congrArg (· >>= _) (hs.emit_eq fun name => by simp only [hsame])

theorem sameShown_interchangeable (h : Handler) (event event' : Body) (hs : SameShown env h event event') :
    Interchangeable env h event event' := by
  have hout : ∀ l, l ∈ ["type", "hostname"] → l ∉ payload h := by cases h <;> decide
  exact ⟨hs.get_eq (hout _ (by decide)) _, hs.get_eq (hout _ (by decide)) _, body_shown hs⟩

/-- Runs whose messages differ only in arguments, results, exceptions and
tracebacks of which the engine leaves the same, and whose exceptions are read as
of the same classes, sink the same events. -/
theorem stream_scrubbed (env : Env) {ds ds' : List Delivery} (hp : PairedDeliveries env (SameShown env) ds ds') :
    (deliverAll env ds Monitor.init).sunk = (deliverAll env ds' Monitor.init).sunk :=
  (deliverAll_alike sameShown_interchangeable hp ⟨rfl, rfl, rfl⟩).sunk

/-- An engine that hides every text: two failures of one class, with other
arguments and another traceback. -/
theorem stream_scrubbed_failed :
    let env : Env := ⟨{ Interp.plain with isalnum := Char.isAlphanum },
      ⟨fun v => if v.str?.isSome then REDACTED else v⟩, .lenient, none, 50000, fun _ => .ok ()⟩
    let failed : String → String → Body := fun exception traceback => [("type", .str "task-failed"), ("uuid", .str "t1"),
      ("name", .str "app.pay"), ("exception", .str exception), ("traceback", .str traceback)]
    (deliverAll env [⟨.dict (failed "KeyError('4111')" "File a"), .ok ()⟩] Monitor.init).sunk =
      (deliverAll env [⟨.dict (failed "KeyError('4222')" "File b"), .ok ()⟩] Monitor.init).sunk := by
  intro env failed
  have hshown : shown env .failed (failed "KeyError('4111')" "File a") = [.ok REDACTED, .ok REDACTED] := rfl
  have hshown' : shown env .failed (failed "KeyError('4222')" "File b") = [.ok REDACTED, .ok REDACTED] := rfl
  refine stream_scrubbed env
    (.cons (.cons (.inr ⟨.failed, _, _, ⟨rfl, by decide, by decide⟩, rfl, ?_, hshown.trans hshown'.symm, ?_⟩) .nil) .nil)
  · intro l hl
    simp only [payload, List.mem_cons, List.not_mem_nil, or_false, not_or] at hl
    simp [failed, lookup, hl.1, hl.2, eq_comm]
  · have htype : exception_type env.py "KeyError('4111')" = exception_type env.py "KeyError('4222')" := by decide +kernel
    exact congrArg some htype

end Z4jCelery.Events.Broker
