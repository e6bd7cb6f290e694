import Z4jCelery.Py.Effect
/-!
# The models the adapter shares with the agent

`CommandResult` is the answer to a command, `Event` what the capture paths
emit, `RedactionEngine` the scrubber both use, `TaskDefinition` a task that
discovery found. Their package is not part of this repository: only the fields
the adapter sets and reads are here, and what the models accept and keep of them
are parameters (`EventModel`, `TaskModel`).
-/

namespace Z4jCelery.Core

open Py

inductive Status where
  | success
  | failed
  deriving DecidableEq

/-- The arguments of `CommandResult`, which may take the blanks around an `error`
away. Only a bulk retry reads an answer again, and its theorems take any. -/
structure CommandResult where
  status : Status
  result : Option (List (String × Val))
  error : Option String
  deriving DecidableEq

def CommandResult.succeed (result : List (String × Val)) : CommandResult := ⟨.success, some result, none⟩

def CommandResult.fail (error : String) : CommandResult := ⟨.failed, none, some error⟩

/-- `r.result.get(key)`, `None` when there is no result. -/
def CommandResult.field (r : CommandResult) (key : String) : Val :=
  match r.result with
  | some kvs => get kvs key .none
  | none => .none

/-- `r.result and r.result.get("indeterminate")`, as a truth value. -/
def CommandResult.indeterminate (r : CommandResult) : Bool := (r.field "indeterminate").truthy

/-- `scrub` replaces what the engine's patterns match, in any value. -/
structure RedactionEngine where
  scrub : Val → Val

inductive EventKind where
  | task_received
  | task_started
  | task_succeeded
  | task_failed
  | task_retried
  | task_revoked
  deriving DecidableEq

/-- An event without its random ids and its timestamp. -/
structure Event where
  engine : String
  task_id : Val
  kind : EventKind
  data : List (String × Val)
  deriving DecidableEq

/-- What calling `Event` does: it may refuse its arguments, and keeps of a text
what `text` says. The entries of `data` are kept. -/
structure EventModel where
  check : Event → Except Exn Unit
  text : String → String

/-- `Event(...)`. -/
def EventModel.make (m : EventModel) (ev : Event) : Except Exn Event := do
  m.check ev
  return { ev with engine := m.text ev.engine, task_id := ev.task_id.mapStr m.text }

/-- A model that accepts every event as it is. -/
def EventModel.lenient : EventModel := ⟨fun _ => .ok (), id⟩

theorem EventModel.make_ok {m : EventModel} {ev made : Event} (h : m.make ev = .ok made) :
    made.kind = ev.kind ∧ made.data = ev.data ∧ made.task_id = ev.task_id.mapStr m.text := by
  obtain ⟨_, -, h⟩ := except_bind_eq_ok.1 h
  obtain rfl := Except.ok.inj h
  exact ⟨rfl, rfl, rfl⟩

structure TaskDefinition where
  name : String
  module : Option String
  engine : String
  queue : Option String
  signature : Option String
  declared_in : Option String
  loaded : Bool
  tags : List String
  deriving DecidableEq

/-- What calling `TaskDefinition` does: it may refuse its arguments, and keeps of
a text what `text` says, which takes away white space only. -/
structure TaskModel where
  check : TaskDefinition → Except Exn Unit
  text : String → String
  text_text : ∀ s, text (text s) = text s
  text_solid : ∀ s, (text s).toList.filter (!isspace ·) = s.toList.filter (!isspace ·)

/-- What the model keeps of a definition. -/
def TaskModel.kept (m : TaskModel) (d : TaskDefinition) : TaskDefinition where
  name := m.text d.name
  module := d.module.map m.text
  engine := m.text d.engine
  queue := d.queue.map m.text
  signature := d.signature.map m.text
  declared_in := d.declared_in.map m.text
  loaded := d.loaded
  tags := d.tags.map m.text

/-- `TaskDefinition(...)`. -/
def TaskModel.make (m : TaskModel) (d : TaskDefinition) : Except Exn TaskDefinition := do
  m.check d
  return m.kept d

/-- A model that accepts every definition as it is. -/
def TaskModel.lenient : TaskModel := ⟨fun _ => .ok (), id, fun _ => rfl, fun _ => rfl⟩

theorem TaskModel.lenient_kept (d : TaskDefinition) : TaskModel.lenient.kept d = d := by
  simp [kept, lenient]

theorem TaskModel.make_eq_ok {m : TaskModel} {d e : TaskDefinition} :
    m.make d = .ok e ↔ m.check d = .ok () ∧ e = m.kept d := by
  unfold make
  rw [except_bind_eq_ok]
  constructor
  · rintro ⟨_, hd, he⟩
    exact ⟨hd, (Except.ok.inj he).symm⟩
  · rintro ⟨hd, rfl⟩
    exact ⟨(), hd, rfl⟩

@[simp] theorem TaskModel.kept_loaded (m : TaskModel) (d : TaskDefinition) : (m.kept d).loaded = d.loaded := rfl

/-- A model that accepts all the definitions of a list gives what it keeps of them. -/
theorem TaskModel.mapM_make {α : Type} {m : TaskModel} {g : α → TaskDefinition} {nodes : List α}
    {ds : List TaskDefinition} : (nodes.mapM fun node => m.make (g node)) = .ok ds ↔
      (∀ node ∈ nodes, m.check (g node) = .ok ()) ∧ ds = nodes.map fun node => m.kept (g node) := by
  induction nodes generalizing ds with
  | nil => simp [pure, Except.pure, eq_comm]
  | cons node nodes ih =>
    rw [List.mapM_cons, except_bind_eq_ok]
    simp only [except_bind_eq_ok, make_eq_ok, ih]
    constructor
    · rintro ⟨_, ⟨hnode, rfl⟩, _, ⟨hnodes, rfl⟩, hds⟩
      exact ⟨by simpa [hnode] using hnodes, (Except.ok.inj hds).symm⟩
    · rintro ⟨hall, rfl⟩
      exact ⟨_, ⟨hall node (by simp), rfl⟩, _, ⟨fun n hn => hall n (by simp [hn]), rfl⟩, rfl⟩

/-- A change of the task registry; tasks are removed by name. -/
structure TaskRegistryDelta where
  engine : String
  added : List TaskDefinition
  removed : List String
  updated : List TaskDefinition
  deriving DecidableEq

end Z4jCelery.Core
