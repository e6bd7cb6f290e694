import Z4jCelery.Events.Signals
/-!
# Skipping and sampling

`TaskMeta` has a switch and a rate for what is reported of a task. No handler
reads them: `handleAll_sunk` says that a run of signals sinks the event of every
signal that has one, and `built_sampled` that the event is the same under any
switch and rate.
-/

namespace Z4jCelery.Events.Signals

open Py Z4jCelery.Core Events Mapper

variable {env : Env}

/-! ## What a signal sinks -/

/-- The event that the handler of a signal builds; none where it returns
without building one. -/
def built (env : Env) : Signal → Option (Except Exn Event)
  | .received request => if request.isNone then none else some (received_event env request)
  | .prerun sender task_id task args kwargs => some do
    let kwargs ← kwargs_of env.py kwargs
    build_task_started_event env.py env.redaction (task_id_of env task_id) (task_or task sender) args kwargs .none .none
  | .postrun sender task_id task retval state =>
    if state ≠ some "SUCCESS" then none
    else some (build_task_succeeded_event env.py env.redaction (task_id_of env task_id) (task_or task sender) retval
      .none .none .none)
  | .failure f => f.exception.map fun exception => do
    let traceback ← failure_traceback f exception
    build_task_failed_event env.py env.redaction (task_id_of env f.task_id) f.sender exception.raised none traceback
      .none .none
  | .retry sender request reason einfo task_id => some do
    let id ← request_id request
    build_task_retried_event env.py env.redaction (.str (env.py.strOf ((id.orElse task_id).orElse (.str "")))) sender
      reason einfo .none .none
  | .revoked sender request terminated signum expired => some do
    let task_id ← request_id request
    build_task_revoked_event env.py (.str (env.py.strOf task_id)) sender terminated signum expired .none .none

/-- The event of a signal, if it has one: what `Event(...)` makes of what the
handler builds. -/
def reported (env : Env) (signal : Signal) : Option Event :=
  (built env signal).bind fun build => (build >>= env.event.make).toOption

theorem emit_sunk (build : Except Exn Event) (s : Hooks) :
    (final (emit env build s)).sunk = s.sunk ++ (build >>= env.event.make).toOption.toList := by
  rw [emit]
  cases build >>= env.event.make with
  | error e => exact (List.append_nil _).symm
  | ok ev =>
    rw [ofOutcome_ok, bind_ok (pure_apply ev s), sink, bind_ok (get_apply s), bind_ok (modify_apply _ s),
      ofOutcome_apply]
    cases env.sink s.sunk.length <;> rfl

theorem body_sunk (signal : Signal) (s : Hooks) :
    (final (body env signal s)).sunk = s.sunk ++ (reported env signal).toList := by
  rw [reported]
  cases signal with
  | received request =>
    rw [body, on_received, built]
    split
    · exact (List.append_nil _).symm
    · exact emit_sunk _ s
  | prerun sender task_id task args kwargs => exact emit_sunk _ s
  | postrun sender task_id task retval state =>
    rw [body, on_postrun, built]
    split
    · exact (List.append_nil _).symm
    · exact emit_sunk _ s
  | failure f =>
    rw [body, on_failure, built]
    cases f.exception with
    | none => exact (List.append_nil _).symm
    | some exception => exact emit_sunk _ s
  | retry sender request reason einfo task_id => exact emit_sunk _ s
  | revoked sender request terminated signum expired => exact emit_sunk _ s

theorem handle_sunk (signal : Signal) (s : Hooks) :
    (final (handle env signal s)).sunk = s.sunk ++ (reported env signal).toList := by
  rw [← body_sunk, handle, tryExcept]
  cases body env signal s <;> rfl

/-- A run of signals sinks the events of its signals, in order, whatever the
sink does. -/
theorem handleAll_sunk (signals : List Signal) (s : Hooks) :
    (handleAll env signals s).sunk = s.sunk ++ signals.filterMap (reported env) := by
  induction signals generalizing s with
  | nil => exact (List.append_nil _).symm
  | cons signal signals ih =>
    rw [handleAll, ih, handle_sunk, List.append_assoc]
    cases hr : reported env signal with
    | none => rw [List.filterMap_cons_none hr]; rfl
    | some ev => rw [List.filterMap_cons_some hr]; rfl

/-! ## Which signals have an event -/

/-- The arguments can be scrubbed: positional ones are none or can be listed,
and the engine sends keyword ones to a dictionary. -/
def Scrubbable (env : Env) (task : TaskArg) (args : Val) (kwargs : Option (List (String × Val))) : Prop :=
  (∃ v, scrub_args env.py env.redaction args (get_meta task) = .ok v) ∧
    ∃ v, scrub_kwargs env.redaction kwargs (get_meta task) = .ok v

/-- Reading what a received event needs of the request does not raise. -/
structure Readable (env : Env) (request : Option Request) (task : TaskArg) (args : Val)
    (kwargs : Option (List (String × Val))) : Prop where
  id : ∃ v, request_id request = .ok v
  task : request_task request = .ok task
  args : request_get request "args" .none = .ok args
  kwargs : ∃ v, request_get request "kwargs" .none = .ok v ∧ kwargs_of env.py v = .ok kwargs
  queue : ∃ v, routing_key request = .ok v
  parent_id : ∃ v, request_get request "parent_id" .none = .ok v
  root_id : ∃ v, request_get request "root_id" .none = .ok v

/-- The signal has something to report: a request, a success or an exception,
and what it reports can be read and scrubbed. -/
def Presentable (env : Env) : Signal → Prop
  | .received request => request ≠ none ∧ ∃ task args kwargs, Readable env request task args kwargs ∧
      Scrubbable env task args kwargs
  | .prerun sender _ task args kwargs => ∃ kwargs', kwargs_of env.py kwargs = .ok kwargs' ∧
      Scrubbable env (task_or task sender) args kwargs'
  | .postrun _ _ _ _ state => state = some "SUCCESS"
  | .failure f => ∃ exception, f.exception = some exception ∧ ∃ v, failure_traceback f exception = .ok v
  | .retry _ request _ _ _ => ∃ v, request_id request = .ok v
  | .revoked _ request _ _ _ => ∃ v, request_id request = .ok v

/-- `Event` refuses the arguments that it gets for the signal. -/
def Refused (env : Env) (signal : Signal) : Prop :=
  ∃ ev e, built env signal = some (.ok ev) ∧ env.event.check ev = .error e

/-- The signal is one that is reported. -/
def Reportable (env : Env) (signal : Signal) : Prop := Presentable env signal ∧ ¬ Refused env signal

theorem exists_ok_bind {α β : Type} {x : Except Exn α} {f : α → Except Exn β} :
    (∃ b, (x >>= f) = .ok b) ↔ ∃ a, x = .ok a ∧ ∃ b, f a = .ok b := by
  simp only [except_bind_eq_ok]
  exact ⟨fun ⟨b, a, ha, hb⟩ => ⟨a, ha, b, hb⟩, fun ⟨a, ha, b, hb⟩ => ⟨b, a, ha, hb⟩⟩

/-- A task with a string for an id has a name. -/
theorem resolve_task_name_str (py : Interp) (task : TaskArg) (id : String) (queue : Val) :
    ∃ name, resolve_task_name py task none (.str id) queue = .ok name := by
  rw [resolve_task_name]
  cases own_name py task with
  | some name => exact ⟨name, rfl⟩
  | none =>
    have hshort : ∃ short, short_id py (.str id) = .ok short := by
      rw [short_id]
      split
      · exact ⟨_, rfl⟩
      · exact ⟨_, rfl⟩
    obtain ⟨short, hshort⟩ := hshort
    exact ⟨placeholder py queue short, by rw [hshort]; rfl⟩

theorem received_built_iff {task : TaskArg} {id : String} {args queue parent_id root_id : Val}
    {kwargs : Option (List (String × Val))} :
    (∃ ev, build_task_received_event env.py env.redaction (.str id) task args kwargs queue parent_id root_id = .ok ev) ↔
      Scrubbable env task args kwargs := by
  obtain ⟨name, hname⟩ := resolve_task_name_str env.py task id queue
  rw [build_task_received_event, Scrubbable, exists_ok_bind]
  simp only [hname, Except.ok.injEq, exists_eq_left', exists_ok_bind]
  exact ⟨fun ⟨a, ha, k, hk, _⟩ => ⟨⟨a, ha⟩, k, hk⟩, fun ⟨⟨a, ha⟩, k, hk⟩ => ⟨a, ha, k, hk, _, rfl⟩⟩

theorem started_built_iff {task : TaskArg} {id : String} {args worker queue : Val}
    {kwargs : Option (List (String × Val))} :
    (∃ ev, build_task_started_event env.py env.redaction (.str id) task args kwargs worker queue = .ok ev) ↔
      Scrubbable env task args kwargs := by
  obtain ⟨name, hname⟩ := resolve_task_name_str env.py task id queue
  rw [build_task_started_event, Scrubbable, exists_ok_bind]
  simp only [hname, Except.ok.injEq, exists_eq_left', exists_ok_bind]
  exact ⟨fun ⟨a, ha, k, hk, _⟩ => ⟨⟨a, ha⟩, k, hk⟩, fun ⟨⟨a, ha⟩, k, hk⟩ => ⟨a, ha, k, hk, _, rfl⟩⟩

theorem failure_traceback_kind {f : Failure} {exception : Exception} {v : Val}
    (h : failure_traceback f exception = .ok v) : v = .none ∨ ∃ s, v = .str s := by
  -- with exception info or without, the text of the first source that has one
  rw [failure_traceback] at h
  split at h
  all_goals
    obtain ⟨einfo, -, h⟩ := except_bind_eq_ok.1 h
    simp only at h
    split at h
    · exact .inr ⟨_, (Except.ok.inj h).symm⟩
    · split at h
      · exact .inr ⟨_, (Except.ok.inj h).symm⟩
      · exact .inr ⟨_, (Except.ok.inj h).symm⟩
      · obtain rfl := Except.ok.inj h
        cases exception.traceback with
        | none => exact .inl rfl
        | some s => exact .inr ⟨s, rfl⟩

theorem failed_built {task : TaskArg} {id : String} {exception : Raised} {traceback worker queue : Val}
    (h : traceback = .none ∨ ∃ s, traceback = .str s) :
    ∃ ev, build_task_failed_event env.py env.redaction (.str id) task exception none traceback worker queue = .ok ev := by
  obtain ⟨name, hname⟩ := resolve_task_name_str env.py task id queue
  have htail : ∃ v, traceback_tail traceback TRACEBACK_MAX_CHARS = .ok v := by
    rcases h with rfl | ⟨s, rfl⟩
    · exact ⟨_, rfl⟩
    · exact ⟨_, rfl⟩
  rw [build_task_failed_event, exists_ok_bind]
  obtain ⟨v, hv⟩ := htail
  refine ⟨name, hname, ?_⟩
  rw [exists_ok_bind]
  exact ⟨v, hv, _, rfl⟩

theorem built_iff (env : Env) (signal : Signal) :
    (∃ b, built env signal = some b ∧ ∃ ev, b = .ok ev) ↔ Presentable env signal := by
  cases signal with
  | received request =>
    rw [built, Presentable]
    cases request with
    | none => simp
    | some r =>
      simp only [Option.isNone_some, Bool.false_eq_true, if_false, Option.some.injEq, exists_eq_left', ne_eq,
        reduceCtorEq, not_false_eq_true, true_and, received_event, exists_ok_bind, received_built_iff]
      constructor
      · rintro ⟨id, hid, task, htask, args, hargs, kwargs, hkwargs, queue, hqueue, parent, hparent, root, hroot, kwargs',
          hkwargs', hs⟩
        exact ⟨task, args, kwargs', ⟨⟨id, hid⟩, htask, hargs, ⟨kwargs, hkwargs, hkwargs'⟩, ⟨queue, hqueue⟩,
          ⟨parent, hparent⟩, root, hroot⟩, hs⟩
      · rintro ⟨task, args, kwargs', ⟨⟨id, hid⟩, htask, hargs, ⟨kwargs, hkwargs, hkwargs'⟩, ⟨queue, hqueue⟩,
          ⟨parent, hparent⟩, root, hroot⟩, hs⟩
        exact ⟨id, hid, task, htask, args, hargs, kwargs, hkwargs, queue, hqueue, parent, hparent, root, hroot, kwargs',
          hkwargs', hs⟩
  | prerun sender task_id task args kwargs =>
    simp only [built, Presentable, Option.some.injEq, exists_eq_left', exists_ok_bind, task_id_of, started_built_iff]
  | postrun sender task_id task retval state =>
    rw [built, Presentable]
    split
    · simp_all
    · rename_i hstate
      obtain ⟨name, hname⟩ := resolve_task_name_str env.py (task_or task sender)
        (env.py.strOf (task_id.orElse (.str ""))) .none
      refine iff_of_true ⟨_, rfl, ?_⟩ (not_not.1 hstate)
      rw [build_task_succeeded_event, exists_ok_bind]
      exact ⟨name, hname, _, rfl⟩
  | failure f =>
    rw [built, Presentable]
    cases f.exception with
    | none => simp
    | some exception =>
      simp only [Option.map_some, Option.some.injEq, exists_eq_left', exists_ok_bind]
      refine exists_congr fun v => and_iff_left_of_imp fun hv => ?_
      exact failed_built (failure_traceback_kind hv)
  | retry sender request reason einfo task_id =>
    simp only [built, Presentable, Option.some.injEq, exists_eq_left', exists_ok_bind]
    refine exists_congr fun v => and_iff_left_of_imp fun _ => ?_
    obtain ⟨name, hname⟩ := resolve_task_name_str env.py sender
      (env.py.strOf ((v.orElse task_id).orElse (.str ""))) .none
    rw [build_task_retried_event, exists_ok_bind]
    exact ⟨name, hname, _, rfl⟩
  | revoked sender request terminated signum expired =>
    simp only [built, Presentable, Option.some.injEq, exists_eq_left', exists_ok_bind]
    refine exists_congr fun v => and_iff_left_of_imp fun _ => ?_
    obtain ⟨name, hname⟩ := resolve_task_name_str env.py sender (env.py.strOf v) .none
    rw [build_task_revoked_event, exists_ok_bind]
    exact ⟨name, hname, _, rfl⟩

theorem reported_iff (env : Env) (signal : Signal) : (∃ ev, reported env signal = some ev) ↔ Reportable env signal := by
  rw [reported, Reportable, ← built_iff, Refused]
  cases built env signal with
  | none => simp
  | some b =>
    cases b with
    | error e => simp [Except.toOption, bind, Except.bind]
    | ok ev =>
      -- the handler builds an event: only `Event` can refuse it
      cases hc : env.event.check ev with
      | error e => simp [hc, EventModel.make, Except.toOption, bind, Except.bind]
      | ok u => simp [hc, EventModel.make, Except.toOption, bind, Except.bind, pure, Except.pure]

/-! ## Another switch and rate -/

/-- The same task with another switch and another rate. -/
def sampled (skip : Bool) (rate : Rat) : TaskArg → TaskArg
  | .val v => .val v
  | .obj t => .obj { t with tmeta := t.tmeta.map fun m => { m with skip := skip, sample_rate := rate } }

def Request.sampled (skip : Bool) (rate : Rat) (r : Request) : Request :=
  { r with task := r.task.map (Signals.sampled skip rate) }

/-- The same signal, for tasks with another switch and another rate. -/
def Signal.sampled (skip : Bool) (rate : Rat) : Signal → Signal
  | .received request => .received (request.map (Request.sampled skip rate))
  | .prerun sender task_id task args kwargs =>
    .prerun (Signals.sampled skip rate sender) task_id (Signals.sampled skip rate task) args kwargs
  | .postrun sender task_id task retval state =>
    .postrun (Signals.sampled skip rate sender) task_id (Signals.sampled skip rate task) retval state
  | .failure f => .failure { f with sender := Signals.sampled skip rate f.sender }
  | .retry sender request reason einfo task_id =>
    .retry (Signals.sampled skip rate sender) (request.map (Request.sampled skip rate)) reason einfo task_id
  | .revoked sender request terminated signum expired =>
    .revoked (Signals.sampled skip rate sender) (request.map (Request.sampled skip rate)) terminated signum expired

section Sampled
variable (skip : Bool) (rate : Rat)

theorem task_or_sampled (task sender : TaskArg) :
    task_or (sampled skip rate task) (sampled skip rate sender) = sampled skip rate (task_or task sender) := by
  cases task with
  | val v =>
    simp only [sampled, task_or]
    split <;> rfl
  | obj t =>
    simp only [sampled, task_or]
    split <;> rfl

theorem resolve_task_name_sampled (py : Interp) (task : TaskArg) (task_id queue : Val) :
    resolve_task_name py (sampled skip rate task) none task_id queue = resolve_task_name py task none task_id queue := by
  cases task <;> rfl

theorem scrub_args_sampled (py : Interp) (engine : RedactionEngine) (args : Val) (task : TaskArg) :
    scrub_args py engine args (get_meta (sampled skip rate task)) = scrub_args py engine args (get_meta task) := by
  cases task with
  | val v => rfl
  | obj t => obtain ⟨_, _, _, _ | m⟩ := t <;> rfl

theorem scrub_kwargs_sampled (engine : RedactionEngine) (kwargs : Option (List (String × Val))) (task : TaskArg) :
    scrub_kwargs engine kwargs (get_meta (sampled skip rate task)) = scrub_kwargs engine kwargs (get_meta task) := by
  cases task with
  | val v => rfl
  | obj t => obtain ⟨_, _, _, _ | m⟩ := t <;> rfl

theorem scrub_result_sampled (engine : RedactionEngine) (task : TaskArg) (result : Val) :
    scrub_result engine (sampled skip rate task) result = scrub_result engine task result := by
  cases task with
  | val v => rfl
  | obj t => obtain ⟨_, _, _, _ | m⟩ := t <;> rfl

theorem event_sampled (kind : EventKind) (task_id : Val) (task : TaskArg) (task_name : String) (queue worker : Val)
    (extra : List (String × Val)) :
    event kind task_id (sampled skip rate task) task_name queue worker extra =
      event kind task_id task task_name queue worker extra := by
  cases task with
  | val v => rfl
  | obj t => obtain ⟨_, _, _, _ | m⟩ := t <;> rfl

theorem request_get_sampled (request : Option Request) (name : String) (default : Val) :
    request_get (request.map (Request.sampled skip rate)) name default = request_get request name default := by
  cases request <;> rfl

theorem request_task_sampled (request : Option Request) :
    request_task (request.map (Request.sampled skip rate)) = (request_task request).map (sampled skip rate) := by
  cases request with
  | none => rfl
  | some r =>
    -- an entry of a request that is a dictionary is no task object
    have hitem : ∀ item : Option Val, ((item.map TaskArg.val).getD (.val .none)) =
        sampled skip rate ((item.map TaskArg.val).getD (.val .none)) := fun item => by cases item <;> rfl
    simp only [request_task, obj_get, Option.map_some, Request.sampled]
    cases hr : r.task with
    | ok task => rfl
    | error e =>
      simp only [Except.map, hasattr]
      split
      · simp only [bind, Except.bind, pure, Except.pure, Bool.false_eq_true, if_false, Except.ok.injEq]
        exact hitem _
      · rfl

theorem built_sampled (signal : Signal) : built env (signal.sampled skip rate) = built env signal := by
  cases signal with
  | received request =>
    have hbuild : received_event env (request.map (Request.sampled skip rate)) = received_event env request := by
      simp only [received_event, request_id, routing_key, request_get_sampled, request_task_sampled]
      cases request_task request with
      | error e => rfl
      | ok task =>
        simp only [Except.map, bind, Except.bind, build_task_received_event, resolve_task_name_sampled,
          scrub_args_sampled, scrub_kwargs_sampled, event_sampled]
    simp only [Signal.sampled, built, hbuild, Option.isNone_map]
  | prerun sender task_id task args kwargs =>
    simp only [Signal.sampled, built, build_task_started_event, task_or_sampled, resolve_task_name_sampled,
      scrub_args_sampled, scrub_kwargs_sampled, event_sampled]
  | postrun sender task_id task retval state =>
    simp only [Signal.sampled, built, build_task_succeeded_event, task_or_sampled, resolve_task_name_sampled,
      scrub_result_sampled, event_sampled]
  | failure f =>
    simp only [Signal.sampled, built, build_task_failed_event, resolve_task_name_sampled, event_sampled]
    rfl
  | retry sender request reason einfo task_id =>
    simp only [Signal.sampled, built, build_task_retried_event, request_id, request_get_sampled,
      resolve_task_name_sampled, event_sampled]
  | revoked sender request terminated signum expired =>
    simp only [Signal.sampled, built, build_task_revoked_event, request_id, request_get_sampled,
      resolve_task_name_sampled, event_sampled]

end Sampled

/-! ## The switch and the rate -/

/-- The signal is about the task: it is what the handler takes for the task. -/
def Signal.About (t : TaskObj) : Signal → Prop
  | .received request => request_task request = .ok (.obj t)
  | .prerun sender _ task _ _ => task_or task sender = .obj t
  | .postrun sender _ task _ _ => task_or task sender = .obj t
  | .failure f => f.sender = .obj t
  | .retry sender _ _ _ _ => sender = .obj t
  | .revoked sender _ _ _ _ => sender = .obj t

/-- A run about a task with its switch on, or with rate zero, sinks nothing
exactly when none of its signals is one that is reported. Under any rate the
events of every reported signal are sunk, for every task id; and any other
switch and rate gives the same events. -/
theorem sampling_ignored (env : Env) :
    (∀ t m signals, t.tmeta = some m → m.skip = true ∨ m.sample_rate = 0 → (∀ s ∈ signals, Signal.About t s) →
      ((handleAll env signals ⟨[]⟩).sunk = [] ↔ ∀ s ∈ signals, ¬ Reportable env s)) ∧
    (∀ signals, (handleAll env signals ⟨[]⟩).sunk = signals.filterMap (reported env) ∧
      ∀ s ∈ signals, Reportable env s → ∃ ev ∈ (handleAll env signals ⟨[]⟩).sunk, reported env s = some ev) ∧
    ∀ skip rate signals, (handleAll env (signals.map (Signal.sampled skip rate)) ⟨[]⟩).sunk =
      (handleAll env signals ⟨[]⟩).sunk := by
  have hsunk : ∀ signals, (handleAll env signals ⟨[]⟩).sunk = signals.filterMap (reported env) :=
    fun signals => handleAll_sunk signals ⟨[]⟩
  refine ⟨fun t m signals _ _ _ => ?_, fun signals => ⟨hsunk signals, fun s hs hr => ?_⟩, fun skip rate signals => ?_⟩
  · rw [hsunk, List.filterMap_eq_nil_iff]
    refine forall₂_congr fun s _ => ?_
    rw [← reported_iff, Option.eq_none_iff_forall_ne_some, not_exists]
  · obtain ⟨ev, hev⟩ := (reported_iff env s).2 hr
    exact ⟨ev, by rw [hsunk]; exact List.mem_filterMap.2 ⟨s, hs, hev⟩, hev⟩
  · rw [hsunk, hsunk, List.filterMap_map]
    refine List.filterMap_congr fun s _ => ?_
    rw [Function.comp_apply, reported, reported, built_sampled]

/-- A task that is switched off and of which no run is to be sampled: its start
is reported. -/
theorem skipped_task_reported :
    let env : Env := ⟨.plain, ⟨id⟩, .lenient, fun _ => .ok ()⟩
    let t : TaskObj := ⟨.str "app.tick", .none, true, some ⟨[], none, false, [], none, none, none, true, 0⟩⟩
    (handleAll env [.prerun (.obj t) (.str "t1") (.obj t) (.list []) (.dict [])] ⟨[]⟩).sunk.map
      (fun ev => (ev.kind, ev.task_id)) = [(.task_started, .str "t1")] := by
  decide

end Z4jCelery.Events.Signals
