import Z4jCelery.Discovery.Static
import Z4jCelery.Events.Meta
import Mathlib.Data.List.Sort
import Mathlib.Data.String.Basic
/-!
# The runtime scan and the merge

`discover_runtime` lists the tasks in the app's registry. A task object is what
reading its attributes does. `merge_discoveries` joins the two scans by name.
-/

namespace Z4jCelery.Discovery

open Py Lib Z4jCelery.Core Events

/-! ## The registry -/

/-- A task's function, or the task itself: its `__module__`, and what
`inspect.signature` and then `str` give. -/
structure Target where
  module : Except Exn Val
  signature : Except Exn (Except Exn String)

/-- A task of the registry. -/
structure RegisteredTask where
  itself : Target
  run : Except Exn Target
  queue : Except Exn Val
  options : Except Exn Val
  obj : TaskObj

/-- Reading `app.tasks`: an object whose `items()` may raise, or `None`. -/
structure CeleryApp where
  tasks : Except Exn (Option (Except Exn (List (String × RegisteredTask))))

/-- `getattr(task_obj, "run", task_obj)`. -/
def RegisteredTask.target (task_obj : RegisteredTask) : Except Exn Target := getattr_or task_obj.itself task_obj.run

/-- A non-empty string. -/
def nonempty_str (v : Val) : Option String :=
  match v with
  | .str s => if s ≠ "" then some s else none
  | _ => none

def get_module (task_obj : RegisteredTask) : Except Exn (Option String) := do
  let target ← task_obj.target
  let module ← getattr target.module
  pure (nonempty_str module)

/-- The task's queue, or else the queue among its options. -/
def get_default_queue (task_obj : RegisteredTask) : Except Exn (Option String) := do
  let queue ← getattr task_obj.queue
  match nonempty_str queue with
  | some queue => pure (some queue)
  | none =>
    let options ← getattr task_obj.options
    match options.dict? with
    | some options => pure (nonempty_str (get options "queue" .none))
    | none => pure none

def get_signature (task_obj : RegisteredTask) : Except Exn (Option String) := do
  let target ← task_obj.target
  match target.signature with
  | .error e => if e.isa .TypeError ∨ e.isa .ValueError then pure none else throw e
  | .ok sig => do
    let rendered ← sig
    pure (some (clip rendered))

/-- What `_definition_for` builds a task's definition from. -/
def runtime_definition (name : String) (task_obj : RegisteredTask) (module queue signature : Option String) :
    TaskDefinition where
  name := name
  module := module
  engine := ENGINE
  queue := queue
  signature := signature
  declared_in := none
  loaded := true
  tags := match get_meta (.obj task_obj.obj) with
    | some tmeta => tmeta.tags
    | none => []

def definition_for (w : World) (name : String) (task_obj : RegisteredTask) : Except Exn TaskDefinition := do
  let module ← get_module task_obj
  let queue ← get_default_queue task_obj
  let signature ← get_signature task_obj
  w.task_definition.make (runtime_definition name task_obj module queue signature)

/-- Celery's own tasks are left out, and so is a task that cannot be read. -/
def discover_runtime (w : World) (celery_app : CeleryApp) : Except Exn (List TaskDefinition) := do
  match ← getattr_or none celery_app.tasks with
  | none => pure []
  | some (.error _) => pure []
  | some (.ok items) =>
    pure ((items.filter fun kv => !startswith kv.1 "celery.").filterMap fun kv => (definition_for w kv.1 kv.2).toOption)

theorem definition_for_iff {w : World} {name : String} {task_obj : RegisteredTask} {d : TaskDefinition} :
    definition_for w name task_obj = .ok d ↔ ∃ module queue signature, get_module task_obj = .ok module ∧
      get_default_queue task_obj = .ok queue ∧ get_signature task_obj = .ok signature ∧
        w.task_definition.check (runtime_definition name task_obj module queue signature) = .ok () ∧
          d = w.task_definition.kept (runtime_definition name task_obj module queue signature) := by
  unfold definition_for
  simp only [except_bind_eq_ok, TaskModel.make_eq_ok]
  constructor
  · rintro ⟨module, hmodule, queue, hqueue, signature, hsignature, hcheck, hd⟩
    exact ⟨module, queue, signature, hmodule, hqueue, hsignature, hcheck, hd⟩
  · rintro ⟨module, queue, signature, hmodule, hqueue, hsignature, hcheck, hd⟩
    exact ⟨module, hmodule, queue, hqueue, signature, hsignature, hcheck, hd⟩

theorem definition_for_ok {w : World} {name : String} {task_obj : RegisteredTask} {d : TaskDefinition}
    (h : definition_for w name task_obj = .ok d) : d.name = w.task_definition.text name ∧ d.loaded = true := by
  obtain ⟨_, _, _, _, _, _, _, rfl⟩ := definition_for_iff.1 h
  exact ⟨rfl, rfl⟩

/-- The tasks found are those of the registry that are not Celery's own and
can be read. -/
theorem mem_runtime {w : World} {celery_app : CeleryApp} {items : List (String × RegisteredTask)}
    (hitems : celery_app.tasks = .ok (some (.ok items))) {ds : List TaskDefinition}
    (h : discover_runtime w celery_app = .ok ds) (d : TaskDefinition) : d ∈ ds ↔
      ∃ name task_obj, (name, task_obj) ∈ items ∧ startswith name "celery." = false ∧
        definition_for w name task_obj = .ok d := by
  have hds : discover_runtime w celery_app = .ok ((items.filter fun kv => !startswith kv.1 "celery.").filterMap
      fun kv => (definition_for w kv.1 kv.2).toOption) := by
    rw [discover_runtime, hitems]
    rfl
  have hok : ∀ kv : String × RegisteredTask,
      (definition_for w kv.1 kv.2).toOption = some d ↔ definition_for w kv.1 kv.2 = .ok d := by
    intro kv
    cases definition_for w kv.1 kv.2 <;> simp [Except.toOption]
  rw [← Except.ok.inj (hds.symm.trans h), List.mem_filterMap]
  simp [hok, and_assoc]

/-! ## The merge -/

/-- The definitions by name, the runtime's over the static scan's. -/
def by_name (runtime static : List TaskDefinition) : Dict String TaskDefinition :=
  (Dict.empty.setAll TaskDefinition.name static).setAll TaskDefinition.name runtime

def merge_discoveries (runtime static : List TaskDefinition) : List TaskDefinition :=
  (by_name runtime static).values.insertionSort fun d e => d.name ≤ e.name

theorem get?_by_name (runtime static : List TaskDefinition) (name : String) :
    (by_name runtime static).get? name =
      (runtime.reverse.find? fun d => d.name = name).or (static.reverse.find? fun d => d.name = name) := by
  rw [by_name, Dict.get?_setAll, Dict.get?_setAll, Dict.get?_empty, Option.or_none]

theorem keys_by_name (runtime static : List TaskDefinition) :
    ∀ kv ∈ (by_name runtime static).items, kv.1 = kv.2.name :=
  Dict.keys_setAll (Dict.keys_setAll (fun _ h => by cases h) static) runtime

theorem mem_merge {runtime static : List TaskDefinition} {d : TaskDefinition} :
    d ∈ merge_discoveries runtime static ↔ (by_name runtime static).get? d.name = some d := by
  rw [merge_discoveries, List.mem_insertionSort, Dict.values, List.mem_map, Dict.get?_eq_some]
  constructor
  · rintro ⟨⟨name, _⟩, hd, rfl⟩
    rwa [← keys_by_name runtime static _ hd]
  · exact fun hd => ⟨_, hd, rfl⟩

/-- Every task listed comes from one of the scans. -/
theorem mem_of_mem_merge {runtime static : List TaskDefinition} {d : TaskDefinition}
    (h : d ∈ merge_discoveries runtime static) : d ∈ runtime ∨ d ∈ static := by
  rw [mem_merge, get?_by_name, Option.or_eq_some_iff] at h
  rcases h with h | ⟨_, h⟩
  · exact .inl (List.mem_reverse.1 (List.mem_of_find?_eq_some h))
  · exact .inr (List.mem_reverse.1 (List.mem_of_find?_eq_some h))

/-- A name that the runtime has is listed as the runtime has it. -/
theorem runtime_wins {runtime : List TaskDefinition} {d : TaskDefinition} (h : d ∈ runtime)
    (static : List TaskDefinition) : ∃ e ∈ runtime, e.name = d.name ∧ e ∈ merge_discoveries runtime static := by
  cases hfind : runtime.reverse.find? fun e => e.name = d.name with
  | none => simpa using List.find?_eq_none.1 hfind d (List.mem_reverse.2 h)
  | some e =>
    have hname : e.name = d.name := by simpa using List.find?_some hfind
    refine ⟨e, List.mem_reverse.1 (List.mem_of_find?_eq_some hfind), hname, mem_merge.2 ?_⟩
    rw [get?_by_name, hname, hfind, Option.some_or]

/-- A merge lists no name twice. -/
theorem merge_nodup (runtime static : List TaskDefinition) :
    ((merge_discoveries runtime static).map TaskDefinition.name).Nodup := by
  have hperm := (List.perm_insertionSort (fun d e : TaskDefinition => d.name ≤ e.name) (by_name runtime static).values)
  rw [merge_discoveries, (hperm.map TaskDefinition.name).nodup_iff]
  have hkeys : (by_name runtime static).values.map TaskDefinition.name = (by_name runtime static).keys := by
    rw [Dict.values, List.map_map, Dict.keys]
    exact List.map_congr_left fun kv hkv => (keys_by_name runtime static kv hkv).symm
  rw [hkeys]
  exact Dict.keys_nodup _

end Z4jCelery.Discovery
