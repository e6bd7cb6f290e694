import Z4jCelery.Events.Mapper
/-!
# The shape of events

An event has the entries of its kind, under different keys in a fixed order, and
is about the task it was built for (`Shaped`). So is what every builder gives to
`Event(...)`, which keeps all but the white space around the task's id (`Made`).
-/

namespace Z4jCelery.Events.Mapper

open Py Z4jCelery.Core Events

/-! ## Keys -/

/-- The entries that metadata adds. -/
def META_KEYS : List String := ["tags", "priority", "expected_duration_ms", "deadline_ms"]

/-- The entries of every event of a kind. -/
def own_keys : EventKind → List String
  | .task_received | .task_started => ["args", "kwargs"]
  | .task_succeeded => ["result", "runtime_ms"]
  | .task_failed => ["exception", "exception_message", "traceback"]
  | .task_retried => ["reason"]
  | .task_revoked => ["terminated", "signum", "expired"]

/-- And those of some. -/
def other_keys : EventKind → List String
  | .task_received => ["parent_task_id", "root_task_id"]
  | _ => []

/-- An event of a kind, about a task: its entries have different keys, in a
fixed order, and the task has a name. -/
structure Shaped (k : EventKind) (id : Val) (ev : Event) : Prop where
  engine : ev.engine = "celery"
  kind : ev.kind = k
  task_id : ev.task_id = id
  keys : ∃ tagged others, tagged.Sublist META_KEYS ∧ others.Sublist (other_keys k) ∧
    ev.data.map Prod.fst = ["task_name", "queue", "worker"] ++ tagged ++ own_keys k ++ others
  nodup : (ev.data.map Prod.fst).Nodup
  named : ∃ name, lookup "task_name" ev.data = some (.str name)

/-- What `Event(...)` makes of an event of a kind, about a task. -/
def Made (m : EventModel) (k : EventKind) (id : Val) (ev : Event) : Prop := ∃ built, Shaped k id built ∧ m.make built = .ok ev

section Made
variable {m : EventModel} {k : EventKind} {id : Val} {ev : Event}

theorem Made.task_id (h : Made m k id ev) : ev.task_id = id.mapStr m.text := by
  obtain ⟨built, hshaped, hmade⟩ := h
  rw [(EventModel.make_ok hmade).2.2, hshaped.task_id]

end Made

theorem update_append {d e : List (String × Val)} (h : ((d ++ e).map Prod.fst).Nodup) : update d e = d ++ e := by
  induction e generalizing d with
  | nil => exact (List.append_nil d).symm
  | cons kv e ih =>
    obtain ⟨k, v⟩ := kv
    have hk : k ∉ d.map Prod.fst := by
      rw [List.map_append, List.map_cons] at h
      exact fun hmem => (List.nodup_append.1 h).2.2 k hmem k List.mem_cons_self rfl
    have hsplit : d ++ (k, v) :: e = d ++ [(k, v)] ++ e := by rw [List.append_assoc, List.singleton_append]
    rw [update_cons, Lib.Dict.upsertItems_of_notMem hk, ih (by rw [← hsplit]; exact h), hsplit]

/-- The items that metadata adds. -/
def meta_items (m : TaskMeta) : List (String × Val) :=
  (if m.tags = [] then [] else [("tags", .list (m.tags.map .str))])
    ++ (m.priority.toList.map fun p => ("priority", .str p))
    ++ (m.expected_duration_ms.toList.map fun d => ("expected_duration_ms", .int d))
    ++ (m.deadline_ms.toList.map fun d => ("deadline_ms", .int d))

theorem meta_items_keys (m : TaskMeta) : ((meta_items m).map Prod.fst).Sublist META_KEYS := by
  simp only [meta_items, List.map_append, List.map_map, Function.comp_def]
  have hone : ∀ {α : Type} (o : Option α) (k : String), (o.toList.map fun _ => k).Sublist [k] := by
    intro α o k
    cases o with
    | none => exact List.nil_sublist _
    | some a => exact List.Sublist.refl _
  have htags : ((if m.tags = [] then [] else [("tags", Val.list (m.tags.map .str))]).map Prod.fst).Sublist ["tags"] := by
    split
    · exact List.nil_sublist _
    · exact List.Sublist.refl _
  exact ((htags.append (hone m.priority _)).append (hone m.expected_duration_ms _)).append (hone m.deadline_ms _)

theorem base_data_eq (task_name : String) (queue worker : Val) (tmeta : Option TaskMeta) (extra : List (String × Val)) :
    base_data task_name queue worker tmeta extra =
      update ([("task_name", .str task_name), ("queue", queue), ("worker", worker)] ++ (tmeta.map meta_items).getD []) extra := by
  cases tmeta with
  | none => rfl
  | some m => simp only [base_data, meta_items, Option.map_some, Option.getD_some, List.append_assoc]

theorem shaped_event (kind : EventKind) (task_id : Val) (task : TaskArg) (task_name : String) (queue worker : Val)
    {own others : List (String × Val)} (hown : own.map Prod.fst = own_keys kind)
    (hothers : (others.map Prod.fst).Sublist (other_keys kind)) :
    Shaped kind task_id (event kind task_id task task_name queue worker (own ++ others)) := by
  obtain ⟨tagged, htagged, hitems⟩ : ∃ tagged, tagged.Sublist META_KEYS ∧
      (((get_meta task).map meta_items).getD []).map Prod.fst = tagged := by
    cases get_meta task with
    | none => exact ⟨[], List.nil_sublist _, rfl⟩
    | some m => exact ⟨_, meta_items_keys m, rfl⟩
  have hkeys : (([("task_name", Val.str task_name), ("queue", queue), ("worker", worker)] ++
      ((get_meta task).map meta_items).getD [] ++ (own ++ others)).map Prod.fst) =
      ["task_name", "queue", "worker"] ++ tagged ++ own_keys kind ++ others.map Prod.fst := by
    simp only [List.map_append, hitems, hown, List.append_assoc]
    rfl
  have hnodup : (["task_name", "queue", "worker"] ++ tagged ++ own_keys kind ++ others.map Prod.fst).Nodup := by
    have hall : (["task_name", "queue", "worker"] ++ META_KEYS ++ own_keys kind ++ other_keys kind).Nodup := by
      cases kind <;> decide
    exact hall.sublist ((((List.Sublist.refl _).append htagged).append (List.Sublist.refl _)).append hothers)
  have hdata : (event kind task_id task task_name queue worker (own ++ others)).data =
      [("task_name", Val.str task_name), ("queue", queue), ("worker", worker)] ++
        ((get_meta task).map meta_items).getD [] ++ (own ++ others) := by
    rw [event, base_data_eq, update_append (hkeys ▸ hnodup)]
  refine ⟨rfl, rfl, rfl, ⟨tagged, others.map Prod.fst, htagged, hothers, ?_⟩, ?_, ?_⟩
  · rw [hdata, hkeys]
  · rw [hdata, hkeys]
    exact hnodup
  · rw [hdata]
    exact ⟨task_name, rfl⟩

theorem shaped_own (kind : EventKind) (task_id : Val) (task : TaskArg) (task_name : String) (queue worker : Val)
    {own : List (String × Val)} (hown : own.map Prod.fst = own_keys kind) :
    Shaped kind task_id (event kind task_id task task_name queue worker own) := by
  have hothers : (([] : List (String × Val)).map Prod.fst).Sublist (other_keys kind) := List.nil_sublist _
  have h := shaped_event kind task_id task task_name queue worker hown hothers
  rwa [List.append_nil] at h

/-! ## The builders -/

section Builders
variable {py : Interp} {redaction : RedactionEngine} {task_id : Val} {task : TaskArg} {queue worker : Val} {ev : Event}

theorem entry_keys (key : String) (v : Val) : ((entry key v).map Prod.fst).Sublist [key] := by
  rw [entry]
  split
  · exact List.Sublist.refl _
  · exact List.nil_sublist _

theorem received_shaped {args parent_task_id root_task_id : Val} {kwargs : Option (List (String × Val))}
    (h : build_task_received_event py redaction task_id task args kwargs queue parent_task_id root_task_id = .ok ev) :
    Shaped .task_received task_id ev := by
  obtain ⟨_, -, h⟩ := except_bind_eq_ok.1 h
  obtain ⟨_, -, h⟩ := except_bind_eq_ok.1 h
  obtain ⟨_, -, h⟩ := except_bind_eq_ok.1 h
  obtain rfl := Except.ok.inj h
  rw [List.append_assoc]
  refine shaped_event .task_received task_id task _ queue .none rfl ?_
  rw [List.map_append]
  exact (entry_keys "parent_task_id" _).append (entry_keys "root_task_id" _)

theorem started_shaped {args : Val} {kwargs : Option (List (String × Val))}
    (h : build_task_started_event py redaction task_id task args kwargs worker queue = .ok ev) :
    Shaped .task_started task_id ev := by
  obtain ⟨_, -, h⟩ := except_bind_eq_ok.1 h
  obtain ⟨_, -, h⟩ := except_bind_eq_ok.1 h
  obtain ⟨_, -, h⟩ := except_bind_eq_ok.1 h
  obtain rfl := Except.ok.inj h
  exact shaped_own .task_started task_id task _ queue worker rfl

theorem succeeded_shaped {result runtime_ms : Val}
    (h : build_task_succeeded_event py redaction task_id task result runtime_ms worker queue = .ok ev) :
    Shaped .task_succeeded task_id ev := by
  obtain ⟨_, -, h⟩ := except_bind_eq_ok.1 h
  obtain rfl := Except.ok.inj h
  exact shaped_own .task_succeeded task_id task _ queue worker rfl

theorem failed_shaped {exception : Raised} {exception_type : Option String} {traceback : Val}
    (h : build_task_failed_event py redaction task_id task exception exception_type traceback worker queue = .ok ev) :
    Shaped .task_failed task_id ev := by
  obtain ⟨_, -, h⟩ := except_bind_eq_ok.1 h
  obtain ⟨_, -, h⟩ := except_bind_eq_ok.1 h
  obtain rfl := Except.ok.inj h
  exact shaped_own .task_failed task_id task _ queue worker rfl

theorem retried_shaped {reason einfo : Val}
    (h : build_task_retried_event py redaction task_id task reason einfo worker queue = .ok ev) :
    Shaped .task_retried task_id ev := by
  obtain ⟨_, -, h⟩ := except_bind_eq_ok.1 h
  obtain rfl := Except.ok.inj h
  exact shaped_own .task_retried task_id task _ queue worker rfl

theorem revoked_shaped {terminated signum expired : Val}
    (h : build_task_revoked_event py task_id task terminated signum expired worker queue = .ok ev) :
    Shaped .task_revoked task_id ev := by
  obtain ⟨_, -, h⟩ := except_bind_eq_ok.1 h
  obtain rfl := Except.ok.inj h
  exact shaped_own .task_revoked task_id task _ queue worker rfl

end Builders

end Z4jCelery.Events.Mapper
