import Z4jCelery.Events.Signals.Sampling
/-!
# The signal path shows what the engine and the metadata leave

`hide` takes the payload out of a signal: arguments, return value, exception,
traceback, retry reason. `shown` is what the hooks make of it: what `scrub`
leaves of what the task's metadata lets through. The name of the exception's
class is in the event as it is (`exception_class`). Runs of signals that agree
on all three sink the same events (`signals_scrubbed`).
-/

namespace Z4jCelery.Events.Signals

open Py Z4jCelery.Core Events Mapper

/-! ## The payload -/

def PAYLOAD : List String := ["args", "kwargs"]

def hide_request (r : Request) : Request where
  attr name := if name ∈ PAYLOAD then .ok .none else r.attr name
  task := r.task
  items := r.items.map fun kvs => kvs.filter fun kv => decide (kv.1 ∉ PAYLOAD)

def hide : Signal → Signal
  | .received request => .received (request.map hide_request)
  | .prerun sender task_id task _ _ => .prerun sender task_id task .none .none
  | .postrun sender task_id task _ state => .postrun sender task_id task .none state
  | .failure f => .failure { f with exception := f.exception.map fun _ => ⟨⟨"", ""⟩, none⟩, traceback := .other, einfo := none }
  | .retry sender request _ _ task_id => .retry sender request .none .none task_id
  | .revoked sender request terminated signum expired => .revoked sender request terminated signum expired

variable (env : Env)

def shown_traceback (traceback : Val) : Except Exn Val :=
  (traceback_tail traceback TRACEBACK_MAX_CHARS).map fun traceback =>
    if traceback = .none then .none else env.redaction.scrub traceback

def shown_args (task : TaskArg) (args : Val) : Except Exn Val := scrub_args env.py env.redaction args (get_meta task)

def shown_kwargs (task : TaskArg) (kwargs : Val) : Except Exn Val := do
  let kwargs ← kwargs_of env.py kwargs
  scrub_kwargs env.redaction kwargs (get_meta task)

def shown_reason (reason einfo : Val) : Val :=
  let reason := if reason = .none ∧ einfo ≠ .none then .str (env.py.strOf einfo) else reason
  if reason = .none then .none else env.redaction.scrub reason

def shown : Signal → List (Option Val)
  | .received request =>
    [(do shown_args env (← request_task request) (← request_get request "args" .none)).toOption,
      (do shown_kwargs env (← request_task request) (← request_get request "kwargs" .none)).toOption]
  | .prerun sender _ task args kwargs =>
    [(shown_args env (task_or task sender) args).toOption, (shown_kwargs env (task_or task sender) kwargs).toOption]
  | .postrun sender _ task retval _ => [some (scrub_result env.redaction (task_or task sender) retval)]
  | .failure f => match f.exception with
    | none => []
    | some exception => [some (env.redaction.scrub (.str exception.raised.text)),
        (do shown_traceback env (← failure_traceback f exception)).toOption]
  | .retry _ _ reason einfo _ => [some (shown_reason env reason einfo)]
  | .revoked _ _ _ _ _ => []

/-- The class of a failure's exception, by name. No engine scrubs it. -/
def exception_class : Signal → Option String
  | .failure f => f.exception.map fun exception => exception.raised.type_name
  | _ => none

/-- Signals that differ in their payloads only, show the same of them and name
the same class. -/
structure SameShown (signal signal' : Signal) : Prop where
  outside : hide signal = hide signal'
  shown : shown env signal = shown env signal'
  exception_class : exception_class signal = exception_class signal'

variable {env}

/-! ## Requests -/

theorem request_get_hide (request : Option Request) {name : String} (hname : name ∉ PAYLOAD) (default : Val) :
    request_get (request.map hide_request) name default = request_get request name default := by
  cases request with
  | none => rfl
  | some r =>
    have hitem : (r.items.map fun kvs => kvs.filter fun kv => decide (kv.1 ∉ PAYLOAD)).bind (lookup name) =
        r.items.bind (lookup name) := by
      cases r.items with
      | none => rfl
      | some kvs => exact (lookup_filter (fun key => decide (key ∉ PAYLOAD)) name kvs).trans (if_pos (decide_eq_true hname))
    simp only [Option.map_some, request_get, hide_request, if_neg hname, hitem]

theorem request_task_hide (request : Option Request) : request_task (request.map hide_request) = request_task request := by
  cases request with
  | none => rfl
  | some r =>
    have hitem : (r.items.map fun kvs => kvs.filter fun kv => decide (kv.1 ∉ PAYLOAD)).bind (lookup "task") =
        r.items.bind (lookup "task") := by
      cases r.items with
      | none => rfl
      | some kvs => exact (lookup_filter (fun key => decide (key ∉ PAYLOAD)) "task" kvs).trans rfl
    simp only [Option.map_some, request_task, hide_request, hitem]

/-- What the hooks read of a request besides its payload. -/
theorem request_same {request request' : Option Request} (h : request.map hide_request = request'.map hide_request) :
    request_id request = request_id request' ∧ request_task request = request_task request' ∧
      routing_key request = routing_key request' ∧
      (∀ name ∉ PAYLOAD, ∀ default, request_get request name default = request_get request' name default) ∧
      request.isNone = request'.isNone := by
  have hget : ∀ name ∉ PAYLOAD, ∀ default, request_get request name default = request_get request' name default := by
    intro name hname default
    rw [← request_get_hide request hname, h, request_get_hide request' hname]
  refine ⟨?_, ?_, ?_, hget, ?_⟩
  · simp only [request_id, hget "task_id" (by decide), hget "id" (by decide)]
  · rw [← request_task_hide request, h, request_task_hide request']
  · simp only [routing_key, hget "delivery_info" (by decide)]
  · have hnone := congrArg Option.isNone h
    rwa [Option.isNone_map, Option.isNone_map] at hnone

/-! ## The events -/

theorem build_received_toOption (task_id : Val) (task : TaskArg) (args : Val) (kwargs : Option (List (String × Val)))
    (queue parent_task_id root_task_id : Val) :
    (build_task_received_event env.py env.redaction task_id task args kwargs queue parent_task_id root_task_id).toOption =
      (do
        let task_name ← (resolve_task_name env.py task none task_id queue).toOption
        let args ← (scrub_args env.py env.redaction args (get_meta task)).toOption
        let kwargs ← (scrub_kwargs env.redaction kwargs (get_meta task)).toOption
        some (event .task_received task_id task task_name queue .none ([("args", args), ("kwargs", kwargs)] ++
          entry "parent_task_id" parent_task_id ++ entry "root_task_id" root_task_id))) := by
  rw [build_task_received_event]
  cases resolve_task_name env.py task none task_id queue with
  | error e => rfl
  | ok task_name =>
    cases scrub_args env.py env.redaction args (get_meta task) with
    | error e => rfl
    | ok args => cases scrub_kwargs env.redaction kwargs (get_meta task) <;> rfl

theorem build_started_toOption (task_id : Val) (task : TaskArg) (args : Val) (kwargs : Option (List (String × Val))) :
    (build_task_started_event env.py env.redaction task_id task args kwargs .none .none).toOption = (do
      let task_name ← (resolve_task_name env.py task none task_id .none).toOption
      let args ← (scrub_args env.py env.redaction args (get_meta task)).toOption
      let kwargs ← (scrub_kwargs env.redaction kwargs (get_meta task)).toOption
      some (event .task_started task_id task task_name .none .none [("args", args), ("kwargs", kwargs)])) := by
  rw [build_task_started_event]
  cases resolve_task_name env.py task none task_id .none with
  | error e => rfl
  | ok task_name =>
    cases scrub_args env.py env.redaction args (get_meta task) with
    | error e => rfl
    | ok args => cases scrub_kwargs env.redaction kwargs (get_meta task) <;> rfl

/-- A received event, from what the hooks read of the request and what they show
of its payload. -/
theorem received_event_toOption (request : Option Request) : (received_event env request).toOption = (do
    let task_id ← (request_id request).toOption
    let task ← (request_task request).toOption
    let queue ← (routing_key request).toOption
    let parent_id ← (request_get request "parent_id" .none).toOption
    let root_id ← (request_get request "root_id" .none).toOption
    let task_name ← (resolve_task_name env.py task none (.str (env.py.strOf task_id)) queue).toOption
    let args ← (do shown_args env (← request_task request) (← request_get request "args" .none)).toOption
    let kwargs ← (do shown_kwargs env (← request_task request) (← request_get request "kwargs" .none)).toOption
    some (event .task_received (.str (env.py.strOf task_id)) task task_name queue .none
      ([("args", args), ("kwargs", kwargs)] ++ entry "parent_task_id" (optional_str env parent_id) ++
        entry "root_task_id" (optional_str env root_id)))) := by
  rw [received_event]
  cases request_id request with
  | error e => rfl
  | ok task_id =>
    cases request_task request with
    | error e => rfl
    | ok task =>
      cases request_get request "args" .none with
      | error e => simp [Except.toOption, bind, Except.bind]
      | ok args =>
        cases request_get request "kwargs" .none with
        | error e => simp [Except.toOption, bind, Except.bind]
        | ok kwargs =>
          cases routing_key request with
          | error e => rfl
          | ok queue =>
            cases request_get request "parent_id" .none with
            | error e => rfl
            | ok parent_id =>
              cases request_get request "root_id" .none with
              | error e => rfl
              | ok root_id =>
                cases hk : kwargs_of env.py kwargs with
                | error e => simp [shown_kwargs, hk, Except.toOption, bind, Except.bind]
                | ok kvs =>
                  simp only [bind, Except.bind, shown_args, shown_kwargs, hk, build_received_toOption]
                  rfl

theorem started_event_toOption (task_id : Val) (task : TaskArg) (args kwargs : Val) :
    (kwargs_of env.py kwargs >>= fun kwargs => build_task_started_event env.py env.redaction task_id task args kwargs .none
        .none).toOption = (do
      let task_name ← (resolve_task_name env.py task none task_id .none).toOption
      let args ← (shown_args env task args).toOption
      let kwargs ← (shown_kwargs env task kwargs).toOption
      some (event .task_started task_id task task_name .none .none [("args", args), ("kwargs", kwargs)])) := by
  cases hk : kwargs_of env.py kwargs with
  | error e => simp [shown_kwargs, hk, Except.toOption, bind, Except.bind]
  | ok kvs =>
    refine (build_started_toOption task_id task args kvs).trans ?_
    simp only [shown_kwargs, hk]
    rfl

theorem failed_event_toOption (f : Failure) (exception : Exception) (task_id : Val) :
    (failure_traceback f exception >>= fun traceback => build_task_failed_event env.py env.redaction task_id f.sender
        exception.raised none traceback .none .none).toOption = (do
      let task_name ← (resolve_task_name env.py f.sender none task_id .none).toOption
      let traceback ← (do shown_traceback env (← failure_traceback f exception)).toOption
      some (event .task_failed task_id f.sender task_name .none .none
        [("exception", .str exception.raised.type_name),
          ("exception_message", env.redaction.scrub (.str exception.raised.text)), ("traceback", traceback)])) := by
  cases failure_traceback f exception with
  | error e => simp [bind, Except.bind, Except.toOption]
  | ok traceback =>
    simp only [shown_traceback, build_task_failed_event, bind, Except.bind]
    cases traceback_tail traceback TRACEBACK_MAX_CHARS with
    | error e => cases resolve_task_name env.py f.sender none task_id .none <;> rfl
    | ok tail => cases resolve_task_name env.py f.sender none task_id .none <;> rfl

theorem retried_event_eq (sender : TaskArg) (task_id reason einfo : Val) :
    build_task_retried_event env.py env.redaction task_id sender reason einfo .none .none = (do
      let task_name ← resolve_task_name env.py sender none task_id .none
      return event .task_retried task_id sender task_name .none .none [("reason", shown_reason env reason einfo)]) := rfl

/-! ## Runs of signals -/

theorem built_shown {signal signal' : Signal} (hs : SameShown env signal signal') :
    (built env signal).bind Except.toOption = (built env signal').bind Except.toOption := by
  obtain ⟨hout, hshown, hclass⟩ := hs
  cases signal with
  | received request =>
    cases signal' <;> simp only [hide, reduceCtorEq, Signal.received.injEq] at hout
    rename_i request'
    obtain ⟨hid, htask, hkey, hget, hnone⟩ := request_same hout
    simp only [shown, List.cons.injEq, and_true] at hshown
    simp only [built, hnone]
    split
    · rfl
    · rw [Option.bind_some, Option.bind_some, received_event_toOption, received_event_toOption, hshown.1, hshown.2]
      simp only [hid, htask, hkey, hget "parent_id" (by decide), hget "root_id" (by decide)]
  | prerun sender task_id task args kwargs =>
    cases signal' <;> simp only [hide, reduceCtorEq, Signal.prerun.injEq, and_true] at hout
    obtain ⟨rfl, rfl, rfl⟩ := hout
    simp only [shown, List.cons.injEq, and_true] at hshown
    simp only [built, Option.bind_some, started_event_toOption, hshown.1, hshown.2]
  | postrun sender task_id task retval state =>
    cases signal' <;> simp only [hide, reduceCtorEq, Signal.postrun.injEq, true_and] at hout
    obtain ⟨rfl, rfl, rfl, rfl⟩ := hout
    simp only [shown, List.cons.injEq, Option.some.injEq, and_true] at hshown
    simp only [built, build_task_succeeded_event, hshown]
  | failure f =>
    cases signal' <;> simp only [hide, reduceCtorEq, Signal.failure.injEq] at hout
    rename_i f'
    obtain ⟨task_id, sender, exception, traceback, einfo⟩ := f
    obtain ⟨task_id', sender', exception', traceback', einfo'⟩ := f'
    simp only [Failure.mk.injEq, and_true] at hout
    obtain ⟨rfl, rfl, hsome⟩ := hout
    cases exception with
    | none =>
      cases exception' with
      | none => rfl
      | some exception' => cases hsome
    | some exception =>
      cases exception' with
      | none => cases hsome
      | some exception' =>
        simp only [shown, List.cons.injEq, Option.some.injEq, and_true] at hshown
        simp only [exception_class, Option.map_some, Option.some.injEq] at hclass
        simp only [built, Option.map_some, Option.bind_some, failed_event_toOption, hshown, hclass]
  | retry sender request reason einfo task_id =>
    cases signal' <;> simp only [hide, reduceCtorEq, Signal.retry.injEq, true_and] at hout
    obtain ⟨rfl, rfl, rfl⟩ := hout
    simp only [shown, List.cons.injEq, Option.some.injEq, and_true] at hshown
    simp only [built, Option.bind_some, retried_event_eq, hshown]
  | revoked sender request terminated signum expired =>
    cases signal' <;> simp only [hide, reduceCtorEq] at hout
    rw [hout]

theorem reported_eq (signal : Signal) : reported env signal =
    ((built env signal).bind Except.toOption).bind fun ev => (env.event.make ev).toOption := by
  rw [reported, Option.bind_assoc]
  refine congrArg (Option.bind _) (funext fun build => ?_)
  cases build <;> rfl

theorem reported_shown {signal signal' : Signal} (hs : SameShown env signal signal') :
    reported env signal = reported env signal' := by
  rw [reported_eq, reported_eq, built_shown hs]

/-- Runs of signals that differ only in payloads of which the engine and the
metadata leave the same, and whose exceptions have the same classes, sink the
same events. -/
theorem signals_scrubbed (env : Env) {signals signals' : List Signal} (h : List.Forall₂ (SameShown env) signals signals') :
    (handleAll env signals ⟨[]⟩).sunk = (handleAll env signals' ⟨[]⟩).sunk := by
  rw [handleAll_sunk, handleAll_sunk]
  induction h with
  | nil => rfl
  | cons hs _ ih =>
    rw [List.filterMap_cons, List.filterMap_cons, reported_shown hs]
    split
    · exact ih
    · exact congrArg (_ :: ·) ih

/-- A task that keeps one argument and redacts its result, and an engine that
hides every text: another card number, another dropped argument, another result
and another error of the same class. -/
theorem signals_scrubbed_pay :
    let hidden : RedactionEngine := ⟨fun v => if v.str?.isSome then REDACTED else v⟩
    let env : Env := ⟨.plain, hidden, .lenient, fun _ => .ok ()⟩
    let pay : TaskArg := .obj ⟨.str "app.pay", .none, true, some ⟨["card"], some ["card"], true, [], none, none, none, false, 1⟩⟩
    let signals : String → Int → List Signal := fun card pin =>
      [.prerun pay (.str "t1") pay (.list [.int pin]) (.dict [("card", .str card), ("pin", .int pin)]),
        .postrun pay (.str "t1") pay (.str card) (some "SUCCESS"),
        .failure ⟨.str "t2", pay, some ⟨⟨"CardError", card⟩, none⟩, .str card, none⟩]
    (handleAll env (signals "4111" 1) ⟨[]⟩).sunk = (handleAll env (signals "4222" 2) ⟨[]⟩).sunk := by
  intro hidden env pay signals
  exact signals_scrubbed env (.cons ⟨rfl, rfl, rfl⟩ (.cons ⟨rfl, rfl, rfl⟩ (.cons ⟨rfl, by decide +kernel, rfl⟩ .nil)))

end Z4jCelery.Events.Signals
