import Z4jCelery.Discovery.Runtime
import Z4jCelery.Discovery.Scan
import Z4jCelery.Lib.Queue
/-!
# Discovery and registry deltas

`discover_tasks` joins both scans. When a tasks file changes, the watcher
schedules a re-discovery, which queues a delta for the subscriber.

The delta adds what was found and removes nothing. Applying the deltas to the
set known at the start gives the set found last exactly when every task found
on the way is still in it (`reconstructs_iff`).
-/

namespace Z4jCelery.Engine.Registry

open Py Lib Z4jCelery.Core Discovery

/-! ## The adapter -/

structure DiscoveryHints where
  app_paths : List Path

def ENGINE_NAME : String := "celery"

/-- The static scan of the hinted paths, if there are any. -/
def static_tasks (w : World) (fuel : Nat) (hints : Option DiscoveryHints) : LoopM (List TaskDefinition) :=
  match hints with
  | some hints => if hints.app_paths ≠ [] then discover_static w fuel hints.app_paths else pure []
  | none => pure []

/-- `discover_tasks`, without caching the hints. -/
def discover_tasks (w : World) (fuel : Nat) (celery_app : CeleryApp) (hints : Option DiscoveryHints) :
    LoopM (List TaskDefinition) := do
  let runtime_defs ← LoopM.of (discover_runtime w celery_app)
  let static_defs ← static_tasks w fuel hints
  pure (merge_discoveries runtime_defs static_defs)

theorem discover_tasks_ok {w : World} {n : Nat} {app : CeleryApp} {hints : DiscoveryHints}
    {tasks : List TaskDefinition} : (discover_tasks w n app (some hints)).run = some (.ok tasks) ↔
      ∃ runtime static, discover_runtime w app = .ok runtime ∧
        (discover_static w n hints.app_paths).run = some (.ok static) ∧ merge_discoveries runtime static = tasks := by
  have hpaths : static_tasks w n (some hints) = discover_static w n hints.app_paths := by
    rw [static_tasks]
    split
    · rfl
    · next h => rw [not_not.1 h, discover_static]
  unfold discover_tasks
  simp only [hpaths, LoopM.bind_eq_ok, LoopM.of_run, LoopM.pure_run, Option.some.injEq, Except.ok.injEq]
  constructor
  · rintro ⟨runtime, hruntime, static, hstatic, htasks⟩
    exact ⟨runtime, static, hruntime, hstatic, htasks⟩
  · rintro ⟨runtime, static, hruntime, hstatic, htasks⟩
    exact ⟨runtime, hruntime, static, hstatic, htasks⟩

/-- What the registry's code keeps. `registry_loop` and `fs_watcher` say
whether there is one; `scheduled` counts the re-discoveries on the loop. -/
structure Adapter where
  discovery_hints : Option DiscoveryHints
  registry_loop : Bool
  fs_watcher : Bool
  scheduled : Nat
  registry_delta_queue : Queue TaskRegistryDelta 100

/-- After `discover_tasks(hints)` on a new adapter. -/
def Adapter.init (hints : Option DiscoveryHints) : Adapter := ⟨hints, false, false, 0, .empty⟩

/-- The start of `subscribe_registry_changes`, in development or not; `starts`
says whether the watcher does. -/
def subscribe (dev_mode starts : Bool) (a : Adapter) : Adapter :=
  match a.discovery_hints with
  | some hints =>
    if dev_mode ∧ hints.app_paths ≠ [] ∧ ¬ a.fs_watcher then { a with registry_loop := true, fs_watcher := starts }
    else a
  | none => a

/-- The watcher's callback. -/
def on_tasks_file_changed (a : Adapter) : Adapter :=
  if a.registry_loop = false ∨ a.discovery_hints.isNone then a else { a with scheduled := a.scheduled + 1 }

/-- The delta that a re-discovery yields. -/
def delta_of (defs : List TaskDefinition) : TaskRegistryDelta :=
  { engine := ENGINE_NAME, added := defs, removed := [], updated := [] }

/-- The rest of a re-discovery, once `discover_tasks` returned or raised: the
delta is lost when the queue is full. -/
def rediscover (found : Except Exn (List TaskDefinition)) (a : Adapter) : Adapter :=
  match found with
  | .error _ => a
  | .ok defs =>
    match a.registry_delta_queue.put_nowait (delta_of defs) with
    | some q => { a with registry_delta_queue := q }
    | none => a

/-! ## Runs -/

/-- What may happen next. A re-discovery sees the files and the app as they are
when it runs. -/
inductive Step where
  | subscribe (dev_mode starts : Bool)
  | tasks_file_changed
  | rediscover (w : World) (fuel : Nat) (celery_app : CeleryApp)
  | yield

/-- The adapter, with the sets that re-discoveries returned, how many of their
deltas were lost, and the deltas yielded. -/
structure State where
  adapter : Adapter
  returned : List (List TaskDefinition)
  dropped : Nat
  yielded : List TaskRegistryDelta

def State.init (hints : Option DiscoveryHints) : State := ⟨.init hints, [], 0, []⟩

/-- The loop runs a re-discovery. -/
def run_rediscover (found : Except Exn (List TaskDefinition)) (s : State) : State where
  adapter := rediscover found { s.adapter with scheduled := s.adapter.scheduled - 1 }
  returned := match found with
    | .ok defs => s.returned ++ [defs]
    | .error _ => s.returned
  dropped := match found with
    | .ok defs => if (s.adapter.registry_delta_queue.put_nowait (delta_of defs)).isNone then s.dropped + 1 else s.dropped
    | .error _ => s.dropped
  yielded := s.yielded

def step (s : State) : Step → Option State
  | .subscribe dev_mode starts => some { s with adapter := subscribe dev_mode starts s.adapter }
  | .tasks_file_changed => some { s with adapter := on_tasks_file_changed s.adapter }
  | .rediscover w fuel celery_app =>
    if s.adapter.scheduled = 0 then none
    else (discover_tasks w fuel celery_app s.adapter.discovery_hints).run.map fun found => run_rediscover found s
  | .yield => s.adapter.registry_delta_queue.get_nowait.map fun (delta, q) =>
    { s with adapter := { s.adapter with registry_delta_queue := q }, yielded := s.yielded ++ [delta] }

theorem step_rediscover {s : State} {w : World} {n : Nat} {app : CeleryApp} {found : Except Exn (List TaskDefinition)}
    (hscheduled : s.adapter.scheduled ≠ 0)
    (hfound : (discover_tasks w n app s.adapter.discovery_hints).run = some found) :
    step s (.rediscover w n app) = some (run_rediscover found s) := by
  rw [step, if_neg hscheduled, hfound]
  rfl

/-! ## Reconstruction -/

/-- Task definitions by name. -/
abbrev Tasks := Dict String TaskDefinition

def tasks_of (defs : List TaskDefinition) : Tasks := Dict.empty.setAll TaskDefinition.name defs

/-- Insert `added`, replace `updated`, delete `removed`. -/
def apply_delta (t : Tasks) (delta : TaskRegistryDelta) : Tasks :=
  delta.removed.foldl Dict.erase ((t.setAll TaskDefinition.name delta.added).setAll TaskDefinition.name delta.updated)

/-- The set that the last re-discovery returned, or the one known at the start. -/
def last_found (initial : List TaskDefinition) (s : State) : List TaskDefinition :=
  (initial :: s.returned).getLast (List.cons_ne_nil _ _)

/-- The deltas yielded take the set known at the start to the one found last. -/
def Reconstructs (initial : List TaskDefinition) (s : State) : Prop :=
  ∀ name, (s.yielded.foldl apply_delta (tasks_of initial)).get? name = (tasks_of (last_found initial s)).get? name

/-- Every task found at the start or by a re-discovery was still found last. -/
def NothingRemoved (initial : List TaskDefinition) (s : State) : Prop :=
  ∀ defs ∈ initial :: s.returned, ∀ d ∈ defs, ∃ e ∈ last_found initial s, e.name = d.name

/-! ## The deltas of a run -/

/-- As long as none is lost, the deltas yielded and queued are those of the
sets returned, in order. -/
def InOrder (s : State) : Prop :=
  s.dropped = 0 → s.yielded ++ s.adapter.registry_delta_queue.items = s.returned.map delta_of

theorem subscribe_queue (dev_mode starts : Bool) (a : Adapter) :
    (subscribe dev_mode starts a).registry_delta_queue = a.registry_delta_queue := by
  unfold subscribe
  split
  · split <;> rfl
  · rfl

theorem on_tasks_file_changed_queue (a : Adapter) :
    (on_tasks_file_changed a).registry_delta_queue = a.registry_delta_queue := by
  unfold on_tasks_file_changed
  split <;> rfl

theorem inOrder_rediscover {s : State} (h : InOrder s) (found : Except Exn (List TaskDefinition)) :
    InOrder (run_rediscover found s) := by
  unfold run_rediscover rediscover
  cases found with
  | error e => exact h
  | ok defs =>
    cases hput : s.adapter.registry_delta_queue.put_nowait (delta_of defs) with
    | none => simp [InOrder, hput]
    | some q =>
      intro hdropped
      have hs : s.dropped = 0 := by simpa [hput] using hdropped
      have hq := (Queue.put_nowait_eq_some.1 hput).2
      simp [hput, hq, ← h hs]

theorem inOrder_step (s : State) (e : Step) (s' : State) (h : InOrder s) (hstep : step s e = some s') : InOrder s' := by
  cases e with
  | subscribe dev_mode starts =>
    obtain rfl := Option.some.inj hstep
    rw [InOrder, subscribe_queue]
    exact h
  | tasks_file_changed =>
    obtain rfl := Option.some.inj hstep
    rw [InOrder, on_tasks_file_changed_queue]
    exact h
  | rediscover w fuel celery_app =>
    rw [step] at hstep
    split at hstep
    · cases hstep
    · obtain ⟨found, _, rfl⟩ := Option.map_eq_some_iff.1 hstep
      exact inOrder_rediscover h found
  | yield =>
    obtain ⟨⟨delta, q⟩, hget, rfl⟩ := Option.map_eq_some_iff.1 hstep
    intro hdropped
    have hitems := Queue.get_nowait_eq_some.1 hget
    rw [← h hdropped, hitems]
    simp

theorem inOrder_run {hints : Option DiscoveryHints} {steps : List Step} {s : State}
    (hrun : run step steps (State.init hints) = some s) : InOrder s :=
  run_inv inOrder_step hrun fun _ => rfl

/-! ## What the deltas do -/

theorem apply_deltas (sets : List (List TaskDefinition)) (t : Tasks) :
    (sets.map delta_of).foldl apply_delta t = t.setAll TaskDefinition.name sets.flatten := by
  induction sets generalizing t with
  | nil => rfl
  | cons defs sets ih =>
    rw [List.map_cons, List.foldl_cons, ih, List.flatten_cons, Dict.setAll_append]
    rfl

/-- A set holds the last definition of a name. -/
theorem get?_tasks_of (defs : List TaskDefinition) (name : String) :
    (tasks_of defs).get? name = defs.reverse.find? fun d => d.name = name := by
  rw [tasks_of, Dict.get?_setAll, Dict.get?_empty, Option.or_none]

theorem get?_tasks_of_eq_none {defs : List TaskDefinition} {name : String} :
    (tasks_of defs).get? name = none ↔ ∀ d ∈ defs, d.name ≠ name := by
  simp [get?_tasks_of]

/-- The sets before the last. -/
def earlier (initial : List TaskDefinition) (s : State) : List TaskDefinition :=
  (initial :: s.returned).dropLast.flatten

theorem earlier_append (initial : List TaskDefinition) (s : State) :
    initial ++ s.returned.flatten = earlier initial s ++ last_found initial s := by
  have hsplit := congrArg List.flatten (List.dropLast_append_getLast (List.cons_ne_nil initial s.returned))
  rw [List.flatten_append, List.flatten_singleton, List.flatten_cons] at hsplit
  exact hsplit.symm

/-- Setting the last set over the others gives the last set exactly when it
lacks none of their names. -/
theorem overwrites_iff (before last : List TaskDefinition) :
    (∀ name, ((tasks_of before).setAll TaskDefinition.name last).get? name = (tasks_of last).get? name) ↔
      ∀ d ∈ before, ∃ e ∈ last, e.name = d.name := by
  constructor
  · intro h d hd
    by_contra hmissing
    push Not at hmissing
    have hlast : (tasks_of last).get? d.name = none := get?_tasks_of_eq_none.2 hmissing
    have hboth := (h d.name).trans hlast
    rw [Dict.get?_setAll, Option.or_eq_none_iff] at hboth
    exact get?_tasks_of_eq_none.1 hboth.2 d hd rfl
  · intro h name
    rw [Dict.get?_setAll, get?_tasks_of last]
    cases hfind : last.reverse.find? fun d => d.name = name with
    | some e => rfl
    | none =>
      rw [Option.none_or]
      apply get?_tasks_of_eq_none.2
      rintro d hd rfl
      obtain ⟨e, he, hname⟩ := h d hd
      simpa [hname] using List.find?_eq_none.1 hfind e (List.mem_reverse.2 he)

theorem nothingRemoved_iff (initial : List TaskDefinition) (s : State) :
    NothingRemoved initial s ↔ ∀ d ∈ earlier initial s, ∃ e ∈ last_found initial s, e.name = d.name := by
  have hmem : ∀ d, (∃ defs ∈ initial :: s.returned, d ∈ defs) ↔ d ∈ earlier initial s ∨ d ∈ last_found initial s := by
    intro d
    rw [← List.mem_append, ← earlier_append, ← List.flatten_cons, List.mem_flatten]
  constructor
  · intro h d hd
    obtain ⟨defs, hdefs, hd⟩ := (hmem d).2 (.inl hd)
    exact h defs hdefs d hd
  · intro h defs hdefs d hd
    rcases (hmem d).1 ⟨defs, hdefs, hd⟩ with hd | hd
    · exact h d hd
    · exact ⟨d, hd, rfl⟩

/-- For every set of tasks at the start and every run in which no delta is lost
and all are yielded: the deltas take that set to the one found last exactly
when nothing found before is missing from it. -/
theorem reconstructs_iff {hints : Option DiscoveryHints} {steps : List Step} {s : State}
    (hrun : run step steps (State.init hints) = some s) (hdropped : s.dropped = 0)
    (hdrained : s.adapter.registry_delta_queue.items = []) (initial : List TaskDefinition) :
    Reconstructs initial s ↔ NothingRemoved initial s := by
  have hyielded : s.yielded = s.returned.map delta_of := by
    rw [← inOrder_run hrun hdropped, hdrained, List.append_nil]
  have happlied : s.yielded.foldl apply_delta (tasks_of initial) =
      (tasks_of (earlier initial s)).setAll TaskDefinition.name (last_found initial s) := by
    rw [hyielded, apply_deltas, tasks_of, ← Dict.setAll_append, earlier_append, Dict.setAll_append, tasks_of]
  rw [Reconstructs, happlied, overwrites_iff, nothingRemoved_iff]

/-! ## The shop's tasks file changes -/

/-- No task is loaded. -/
def idle_app : CeleryApp := ⟨.ok (some (.ok []))⟩

def shop_hints : DiscoveryHints := ⟨[shop_dir]⟩

def shop_tasks_of (tree : Node) : List TaskDefinition :=
  merge_discoveries [] ((decorated tree).map (static_definition (shop tree) shop_tasks (some "shop.tasks")))

theorem shop_discovered (tree : Node) :
    (discover_tasks (shop tree) 2 idle_app (some shop_hints)).run = some (.ok (shop_tasks_of tree)) :=
  discover_tasks_ok.2 ⟨[], _, rfl, shop_static tree, rfl⟩

/-- The tasks file is saved with the tree, and the delta is yielded. -/
def shop_steps (tree : Node) : List Step :=
  [.subscribe true true, .tasks_file_changed, .rediscover (shop tree) 2 idle_app, .yield]

def shop_after (tree : Node) : State where
  adapter := ⟨some shop_hints, true, true, 0, .empty⟩
  returned := [shop_tasks_of tree]
  dropped := 0
  yielded := [delta_of (shop_tasks_of tree)]

theorem shop_run (tree : Node) : run step (shop_steps tree) (State.init (some shop_hints)) = some (shop_after tree) := by
  let ready : State := ⟨⟨some shop_hints, true, true, 1, .empty⟩, [], 0, []⟩
  have hrediscover : step ready (.rediscover (shop tree) 2 idle_app) =
      some (run_rediscover (.ok (shop_tasks_of tree)) ready) :=
    step_rediscover Nat.one_ne_zero (shop_discovered tree)
  refine run_cons.2 ⟨_, rfl, run_cons.2 ⟨ready, rfl, run_cons.2 ⟨_, hrediscover, ?_⟩⟩⟩
  rfl

theorem shop_tasks_of_send (keyword : Ident) (value : String) : shop_tasks_of (module_of (send keyword value)) =
    [static_definition (shop (module_of (send keyword value))) shop_tasks (some "shop.tasks") (send keyword value)] := by
  rw [shop_tasks_of, decorated_send]
  rfl

theorem shop_tasks_of_empty : shop_tasks_of (.other []) = [] := by
  have hnone : decorated (.other []) = [] := by simp [decorated, functions, ast_walk, Node.children]
  rw [shop_tasks_of, hnone]
  rfl

/-- A task that is added reaches the subscriber. -/
theorem reconstructs_added : Reconstructs [] (shop_after (module_of (send ⟨"queue", by decide⟩ "mail"))) := by
  refine (reconstructs_iff (shop_run _) rfl rfl []).2 fun defs hdefs d hd => ?_
  rcases List.mem_cons.1 hdefs with rfl | hdefs
  · cases hd
  · obtain rfl := List.mem_singleton.1 hdefs
    exact ⟨d, hd, rfl⟩

/-- A task that is removed from the file stays. -/
theorem removed_task_stays :
    (discover_tasks (shop (module_of (send ⟨"queue", by decide⟩ "mail"))) 2 idle_app (some shop_hints)).run =
        some (.ok (shop_tasks_of (module_of (send ⟨"queue", by decide⟩ "mail")))) ∧
      run step (shop_steps (.other [])) (State.init (some shop_hints)) = some (shop_after (.other [])) ∧
        (shop_after (.other [])).dropped = 0 ∧ (shop_after (.other [])).adapter.registry_delta_queue.items = [] ∧
          ¬ Reconstructs (shop_tasks_of (module_of (send ⟨"queue", by decide⟩ "mail"))) (shop_after (.other [])) := by
  refine ⟨shop_discovered _, shop_run _, rfl, rfl, fun h => ?_⟩
  have hlast : ∀ initial, last_found initial (shop_after (.other [])) = [] := fun _ => shop_tasks_of_empty
  have hkept : ∀ t, (shop_after (.other [])).yielded.foldl apply_delta t = t := by
    intro t
    show t.setAll TaskDefinition.name (shop_tasks_of (.other [])) = t
    rw [shop_tasks_of_empty]
    rfl
  have hname := h "shop.tasks.send"
  rw [hkept, hlast, shop_tasks_of_send, get?_tasks_of, get?_tasks_of] at hname
  cases hname

end Z4jCelery.Engine.Registry
