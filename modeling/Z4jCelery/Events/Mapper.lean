import Z4jCelery.Events.Meta
/-!
# Mapping captured transitions to events

One builder for each kind of event. They redact arguments, results, exception
texts and tracebacks, and name the task: by what the capture path knows of it,
or by a placeholder. The last thing a builder does is to call `Event(...)`: it
gives what that is called with, `EventModel.make` what that returns.
-/

namespace Z4jCelery.Events.Mapper

open Py Z4jCelery.Core Events

def ENGINE : String := "celery"

/-- Longest traceback a failure event carries, in characters. -/
def TRACEBACK_MAX_CHARS : Int := 4096

def TRACEBACK_TRUNCATED_MARKER : String := "[... traceback truncated ...]\n"

def REDACTED : Val := .str "[REDACTED]"

/-! ## Tracebacks -/

/-- `traceback_tail(traceback, limit)` of a string. `traceback[-limit:]` with a
zero limit is the whole string. -/
def str_tail (traceback : String) (limit : Int) : String :=
  if traceback.toList.length ≤ limit then traceback
  else TRACEBACK_TRUNCATED_MARKER ++ String.ofList (sliceFrom traceback.toList (-limit))

/-- `traceback_tail(traceback, limit)` of whatever a broker event carries: a
value with no length raises, a short collection passes through, and a long one
cannot be joined to the marker. -/
def traceback_tail (traceback : Val) (limit : Int) : Except Exn Val :=
  match traceback with
  | .none => .ok .none
  | .str t => .ok (.str (str_tail t limit))
  | .list xs | .tuple xs =>
    if xs.length ≤ limit then .ok traceback else .error (typeError "can only concatenate str to str")
  | .dict kvs => if kvs.length ≤ limit then .ok traceback else .error (typeError "unhashable type: 'slice'")
  | .bool _ | .int _ | .float _ | .obj _ _ _ => .error (typeError "object has no len()")

/-! ## Arguments -/

def keeps (tmeta : Option TaskMeta) : Option (List String) := tmeta.bind (·.keep_kwargs)

def scrub_args (py : Interp) (engine : RedactionEngine) (args : Val) (tmeta : Option TaskMeta) : Except Exn Val :=
  if args = .none then .ok .none
  else if (keeps tmeta).isSome then .ok REDACTED
  else (list_of py args).map fun xs => engine.scrub (.list xs)

/-- What `scrub` receives: the kept keys, with the forced ones replaced. -/
def kwargs_source (kwargs : List (String × Val)) (tmeta : Option TaskMeta) : List (String × Val) :=
  let source := match keeps tmeta with
    | some keep => kwargs.filter fun kv => decide (kv.1 ∈ keep)
    | none => kwargs
  match tmeta with
  | some m => source.map fun kv => if kv.1 ∈ m.redact_kwargs then (kv.1, REDACTED) else kv
  | none => source

/-- The last line asserts that `scrub` sent a dictionary to a dictionary. -/
def scrub_kwargs (engine : RedactionEngine) (kwargs : Option (List (String × Val))) (tmeta : Option TaskMeta) :
    Except Exn Val :=
  match kwargs with
  | none => .ok .none
  | some kwargs =>
    match engine.scrub (.dict (kwargs_source kwargs tmeta)) with
    | .dict kvs => .ok (.dict kvs)
    | _ => .error ⟨.AssertionError, "AssertionError", ""⟩

/-! ## The task's name -/

/-- `(task_id or "")[:8]`, as the text the placeholder shows. -/
def short_id (py : Interp) (task_id : Val) : Except Exn String :=
  if ¬ task_id.truthy then .ok ""
  else match task_id with
    | .str s => .ok (head s 8)
    | .list xs => .ok (py.strOf (.list (xs.take 8)))
    | .tuple xs => .ok (py.strOf (.tuple (xs.take 8)))
    | _ => .error (typeError "object is not subscriptable")

/-- The placeholder for a task of which only the queue or the id is known. -/
def placeholder (py : Interp) (queue : Val) (short : String) : String :=
  if queue.truthy ∧ short ≠ "" then "<unknown:" ++ py.strOf queue ++ ":" ++ short ++ ">"
  else if queue.truthy then "<unknown:" ++ py.strOf queue ++ ">"
  else if short ≠ "" then "<unknown:" ++ short ++ ">"
  else "<unknown>"

/-- The name the task itself gives: a non-empty string, or an object's `name`
or `__name__`. -/
def own_name (py : Interp) : TaskArg → Option String
  | .val (.str s) => if s ≠ "" then some s else none
  | .val _ => none
  | .obj t =>
    let name := t.name.orElse t.dunder_name
    if name.truthy then some (py.strOf name) else none

def resolve_task_name (py : Interp) (task : TaskArg) (fallback_hint : Option String) (task_id queue : Val) :
    Except Exn String :=
  match own_name py task with
  | some name => .ok name
  | none =>
    let hint := strip (fallback_hint.getD "")
    if hint ≠ "" then .ok hint
    else (short_id py task_id).map (placeholder py queue)

theorem placeholder_startswith (py : Interp) (queue : Val) (short : String) :
    startswith (placeholder py queue short) "<unknown" = true := by
  have prefixed : ∀ rest, "<unknown".toList <+: ("<unknown:" ++ rest).toList := fun rest => by
    rw [String.toList_append]
    exact (show "<unknown".toList <+: "<unknown:".toList from ⟨[':'], rfl⟩).trans (List.prefix_append _ _)
  rw [startswith_iff, placeholder]
  split_ifs
  · simpa only [String.append_assoc] using prefixed (py.strOf queue ++ ":" ++ short ++ ">")
  · simpa only [String.append_assoc] using prefixed (py.strOf queue ++ ">")
  · simpa only [String.append_assoc] using prefixed (short ++ ">")
  · exact ⟨['>'], rfl⟩

/-- A task that gives no name of its own gets a placeholder. -/
theorem resolve_task_name_placeholder {py : Interp} {task : TaskArg} {task_id queue : Val} {name : String}
    (hown : own_name py task = none) (h : resolve_task_name py task none task_id queue = .ok name) :
    startswith name "<unknown" = true := by
  simp only [resolve_task_name, hown, Option.getD_none, show strip "" = "" from rfl, ne_eq, not_true_eq_false,
    if_false] at h
  cases hs : short_id py task_id with
  | error e => rw [hs] at h; cases h
  | ok short =>
    rw [hs] at h
    obtain rfl := Except.ok.inj h
    exact placeholder_startswith py queue short

/-! ## The builders -/

def base_data (task_name : String) (queue worker : Val) (tmeta : Option TaskMeta) (extra : List (String × Val)) :
    List (String × Val) :=
  let data := [("task_name", .str task_name), ("queue", queue), ("worker", worker)]
  let data := match tmeta with
    | none => data
    | some m =>
      data ++ (if m.tags = [] then [] else [("tags", .list (m.tags.map .str))])
        ++ (m.priority.toList.map fun p => ("priority", .str p))
        ++ (m.expected_duration_ms.toList.map fun d => ("expected_duration_ms", .int d))
        ++ (m.deadline_ms.toList.map fun d => ("deadline_ms", .int d))
  update data extra

variable (py : Interp) (redaction : RedactionEngine)

/-- The event a builder returns, once the task is named. -/
def event (kind : EventKind) (task_id : Val) (task : TaskArg) (task_name : String) (queue worker : Val)
    (extra : List (String × Val)) : Event :=
  ⟨ENGINE, task_id, kind, base_data task_name queue worker (get_meta task) extra⟩

/-- An entry for a truthy value only. -/
def entry (key : String) (v : Val) : List (String × Val) := if v.truthy then [(key, v)] else []

def build_task_received_event (task_id : Val) (task : TaskArg) (args : Val) (kwargs : Option (List (String × Val)))
    (queue parent_task_id root_task_id : Val) : Except Exn Event := do
  let task_name ← resolve_task_name py task none task_id queue
  let args ← scrub_args py redaction args (get_meta task)
  let kwargs ← scrub_kwargs redaction kwargs (get_meta task)
  return event .task_received task_id task task_name queue .none
    ([("args", args), ("kwargs", kwargs)] ++ entry "parent_task_id" parent_task_id ++ entry "root_task_id" root_task_id)

def build_task_started_event (task_id : Val) (task : TaskArg) (args : Val) (kwargs : Option (List (String × Val)))
    (worker queue : Val) : Except Exn Event := do
  let task_name ← resolve_task_name py task none task_id queue
  let args ← scrub_args py redaction args (get_meta task)
  let kwargs ← scrub_kwargs redaction kwargs (get_meta task)
  return event .task_started task_id task task_name queue worker [("args", args), ("kwargs", kwargs)]

def scrub_result (task : TaskArg) (result : Val) : Val :=
  if (get_meta task).any (·.redact_result) then REDACTED
  else if result = .none then .none else redaction.scrub result

def build_task_succeeded_event (task_id : Val) (task : TaskArg) (result runtime_ms worker queue : Val) :
    Except Exn Event := do
  let task_name ← resolve_task_name py task none task_id queue
  return event .task_succeeded task_id task task_name queue worker
    [("result", scrub_result redaction task result), ("runtime_ms", runtime_ms)]

/-- An exception, or the text of one: its type's name and `str(exception)`. -/
structure Raised where
  type_name : String
  text : String

def build_task_failed_event (task_id : Val) (task : TaskArg) (exception : Raised) (exception_type : Option String)
    (traceback worker queue : Val) : Except Exn Event := do
  let task_name ← resolve_task_name py task none task_id queue
  let traceback ← traceback_tail traceback TRACEBACK_MAX_CHARS
  let exception_type := exception_type.getD ""
  return event .task_failed task_id task task_name queue worker
    [("exception", .str (if exception_type ≠ "" then exception_type else exception.type_name)),
      ("exception_message", redaction.scrub (.str exception.text)),
      ("traceback", if traceback = .none then .none else redaction.scrub traceback)]

def build_task_retried_event (task_id : Val) (task : TaskArg) (reason einfo worker queue : Val) :
    Except Exn Event := do
  let task_name ← resolve_task_name py task none task_id queue
  let reason := if reason = .none ∧ einfo ≠ .none then .str (py.strOf einfo) else reason
  return event .task_retried task_id task task_name queue worker
    [("reason", if reason = .none then .none else redaction.scrub reason)]

def build_task_revoked_event (task_id : Val) (task : TaskArg) (terminated signum expired worker queue : Val) :
    Except Exn Event := do
  let task_name ← resolve_task_name py task none task_id queue
  return event .task_revoked task_id task task_name queue worker
    [("terminated", terminated), ("signum", signum), ("expired", expired)]

/-! ## What the events carry -/

theorem build_task_received_event_kind {py : Interp} {redaction : RedactionEngine} {task_id : Val} {task : TaskArg}
    {args : Val} {kwargs : Option (List (String × Val))} {queue parent_task_id root_task_id : Val} {ev : Event}
    (h : build_task_received_event py redaction task_id task args kwargs queue parent_task_id root_task_id = .ok ev) :
    ev.kind = .task_received := by
  obtain ⟨_, -, h⟩ := except_bind_eq_ok.1 h
  obtain ⟨_, -, h⟩ := except_bind_eq_ok.1 h
  obtain ⟨_, -, h⟩ := except_bind_eq_ok.1 h
  obtain rfl := Except.ok.inj h
  rfl

theorem build_task_started_event_kind {py : Interp} {redaction : RedactionEngine} {task_id : Val} {task : TaskArg}
    {args : Val} {kwargs : Option (List (String × Val))} {worker queue : Val} {ev : Event}
    (h : build_task_started_event py redaction task_id task args kwargs worker queue = .ok ev) :
    ev.kind = .task_started := by
  obtain ⟨_, -, h⟩ := except_bind_eq_ok.1 h
  obtain ⟨_, -, h⟩ := except_bind_eq_ok.1 h
  obtain ⟨_, -, h⟩ := except_bind_eq_ok.1 h
  obtain rfl := Except.ok.inj h
  rfl

theorem build_task_failed_event_kind {py : Interp} {redaction : RedactionEngine} {task_id : Val} {task : TaskArg}
    {exception : Raised} {exception_type : Option String} {traceback worker queue : Val} {ev : Event}
    (h : build_task_failed_event py redaction task_id task exception exception_type traceback worker queue = .ok ev) :
    ev.kind = .task_failed := by
  obtain ⟨_, -, h⟩ := except_bind_eq_ok.1 h
  obtain ⟨_, -, h⟩ := except_bind_eq_ok.1 h
  obtain rfl := Except.ok.inj h
  rfl

theorem build_task_retried_event_kind {py : Interp} {redaction : RedactionEngine} {task_id : Val} {task : TaskArg}
    {reason einfo worker queue : Val} {ev : Event}
    (h : build_task_retried_event py redaction task_id task reason einfo worker queue = .ok ev) :
    ev.kind = .task_retried := by
  obtain ⟨_, -, h⟩ := except_bind_eq_ok.1 h
  obtain rfl := Except.ok.inj h
  rfl

theorem build_task_revoked_event_kind {py : Interp} {task_id : Val} {task : TaskArg}
    {terminated signum expired worker queue : Val} {ev : Event}
    (h : build_task_revoked_event py task_id task terminated signum expired worker queue = .ok ev) :
    ev.kind = .task_revoked := by
  obtain ⟨_, -, h⟩ := except_bind_eq_ok.1 h
  obtain rfl := Except.ok.inj h
  rfl

theorem lookup_task_name (task_name : String) (queue worker : Val) (tmeta : Option TaskMeta)
    {extra : List (String × Val)} (h : ∀ kv ∈ extra, kv.1 ≠ "task_name") :
    lookup "task_name" (base_data task_name queue worker tmeta extra) = some (.str task_name) := by
  have kept : ∀ (l d : List (String × Val)), (∀ kv ∈ l, kv.1 ≠ "task_name") →
      lookup "task_name" (update d l) = lookup "task_name" d := by
    intro l
    induction l with
    | nil => exact fun _ _ => rfl
    | cons kv l ih =>
      intro d hl
      rw [update_cons, ih _ fun kv' hkv' => hl kv' (List.mem_cons_of_mem _ hkv'), lookup_upsertItems,
        if_neg (hl kv List.mem_cons_self)]
  unfold base_data
  refine (kept _ _ h).trans ?_
  cases tmeta <;> rfl

theorem build_task_succeeded_event_ok {py : Interp} {redaction : RedactionEngine} {task_id : Val} {task : TaskArg}
    {result runtime_ms worker queue : Val} {ev : Event}
    (h : build_task_succeeded_event py redaction task_id task result runtime_ms worker queue = .ok ev) :
    ∃ task_name, resolve_task_name py task none task_id queue = .ok task_name ∧ ev.kind = .task_succeeded ∧
      lookup "task_name" ev.data = some (.str task_name) ∧
      lookup "result" ev.data = some (scrub_result redaction task result) := by
  obtain ⟨task_name, hn, h⟩ := except_bind_eq_ok.1 h
  obtain rfl := Except.ok.inj h
  refine ⟨task_name, hn, rfl, lookup_task_name _ _ _ _ (by simp), ?_⟩
  simp [event, base_data, lookup_upsertItems]

end Z4jCelery.Events.Mapper
