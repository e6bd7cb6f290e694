import Z4jCelery.Bootstrap
import Z4jCelery.Lib.Once
/-!
# The agent over the life of a worker

Importing the package registers the two signal handlers, from any threads;
Celery fires the signals, in one thread, as often as it likes. In every run the
handlers are connected once, and a runtime that was started has had its `stop`
called once or is the one that the module holds; a shutdown that finds its
handler connected calls `stop` on that one (`agent_lifecycle`).
-/

namespace Z4jCelery.Bootstrap

open Py Lib

variable {ρ T : Type}

/-! ## The handlers -/

/-- The agent, the runtimes that `install_agent` returned, and those whose `stop`
was called. -/
structure Worker (ρ : Type) where
  agent : Agent ρ
  started : List ρ
  stopped : List ρ

def Worker.init : Worker ρ := ⟨⟨none, []⟩, [], []⟩

/-- What the requests of a signal started. -/
def Worker.ready (p : Process ρ) (w : Worker ρ) : Worker ρ :=
  let agent := final (on_worker_ready p w.agent)
  { w with
    agent := agent
    started := w.started ++
      (agent.installs.drop w.agent.installs.length).filterMap fun request => (p.install_agent request).toOption }

/-- An error of `stop` is only logged; the runtime is dropped `finally`. -/
def on_worker_shutdown (stop : ρ → Except Exn Unit) : PyM (Worker ρ) Unit := do
  let s ← MonadState.get
  match s.agent.runtime with
  | none => return ()
  | some runtime =>
    withExit
      (tryExcept (do
          modify fun s => { s with stopped := s.stopped ++ [runtime] }
          ofOutcome (stop runtime))
        fun _ => pure ())
      (modify fun s => { s with agent := { s.agent with runtime := none } })

/-- What a `worker_ready` does: nothing, or one request, whose runtime is kept. -/
inductive Readied (p : Process ρ) (a : Agent ρ) : Agent ρ → Prop where
  | same : Readied p a a
  | asked (request : Install) (hnone : a.runtime = none) (henabled : env_flag p "Z4J_DISABLED" = false)
      (hworker : is_celery_worker_invocation p.platform p.argv = true) :
      Readied p a ⟨(p.install_agent request).toOption, a.installs ++ [request]⟩

theorem install_cases (p : Process ρ) (app : Val) (a : Agent ρ) :
    (∃ e, install p app a = .error e a) ∨ ∃ request, install p app a =
      (ofOutcome (p.install_agent request) : PyM (Agent ρ) ρ) { a with installs := a.installs ++ [request] } := by
  rw [install]
  cases getattr p.hostname with
  | error e => exact .inl ⟨e, rfl⟩
  | ok hostname =>
    cases resolve_framework_adapter p.imports with
    | error e => exact .inl ⟨e, rfl⟩
    | ok framework => exact .inr ⟨⟨app, hostname, framework, env_flag p "Z4J_DEV_MODE"⟩, rfl⟩

theorem ready_cases (p : Process ρ) (a : Agent ρ) : Readied p a (final (on_worker_ready p a)) := by
  rw [on_worker_ready, bind_ok (get_apply a)]
  split
  · exact .same
  rename_i hruns
  split
  · exact .same
  rename_i henabled
  split
  · exact .same
  rename_i hworker
  cases celery_app p with
  | error e => exact .same
  | ok app =>
    have hnone : a.runtime = none := by simpa using hruns
    rcases install_cases p app a with ⟨e, he⟩ | ⟨request, hr⟩
    · simp only [tryExcept, bind_apply, he]
      exact .same
    · have hasked := Readied.asked request hnone (by simpa using henabled) (by simpa using hworker)
      rw [hnone] at hr
      simp only [tryExcept, bind_apply, hr]
      cases hinstall : p.install_agent request with
      | error e =>
        rw [hinstall] at hasked
        exact hasked
      | ok runtime =>
        rw [hinstall] at hasked
        exact hasked

/-- What a `worker_shutdown` does, whatever `stop` does. -/
theorem shutdown_final (stop : ρ → Except Exn Unit) (w : Worker ρ) : final (on_worker_shutdown stop w) =
    { agent := { w.agent with runtime := none }, started := w.started, stopped := w.stopped ++ w.agent.runtime.toList } := by
  obtain ⟨⟨runtime, installs⟩, started, stopped⟩ := w
  cases runtime with
  | none => exact congrArg (Worker.mk ⟨none, installs⟩ started) (List.append_nil stopped).symm
  | some runtime =>
    rw [on_worker_shutdown, bind_ok (get_apply _)]
    simp only [withExit, tryExcept, bind_apply, modify_apply]
    cases stop runtime <;> rfl

/-! ## The life of a worker -/

/-- `register_worker_bootstrap()` in each thread, how often it connected the two
handlers, and the worker. -/
structure State (T ρ : Type) where
  registration : Once.State T Unit
  ready_connected : Nat
  shutdown_connected : Nat
  worker : Worker ρ

def State.init : State T ρ := ⟨.init, 0, 0, .init⟩

/-- A thread in `register_worker_bootstrap()`, or a signal that Celery fires. -/
inductive Event (T ρ : Type) where
  | register (t : T) (move : Once.Move Unit)
  | worker_ready (p : Process ρ)
  | worker_shutdown (stop : ρ → Except Exn Unit)

variable [DecidableEq T]

/-- Under the lock `worker_ready` is connected, and then `worker_shutdown`, with
the flag. A signal without its handler does nothing. -/
def step (s : State T ρ) : Event T ρ → Option (State T ρ)
  | .register t move =>
    (Once.step s.registration (t, move)).map fun registration =>
      match move with
      | .make _ => { s with registration := registration, ready_connected := s.ready_connected + 1 }
      | .store => { s with registration := registration, shutdown_connected := s.shutdown_connected + 1 }
      | _ => { s with registration := registration }
  | .worker_ready p => some (if s.ready_connected = 0 then s else { s with worker := s.worker.ready p })
  | .worker_shutdown stop =>
    some (if s.shutdown_connected = 0 then s else { s with worker := final (on_worker_shutdown stop s.worker) })

structure Inv (s : State T ρ) : Prop where
  once : Once.Inv s.registration
  ready : s.ready_connected = s.registration.made.length
  shutdown : s.shutdown_connected = s.registration.cell.toList.length
  started : s.worker.started = s.worker.stopped ++ s.worker.agent.runtime.toList

omit [DecidableEq T] in
theorem inv_init : Inv (State.init : State T ρ) := ⟨Once.inv_init, rfl, rfl, rfl⟩

omit [DecidableEq T] in
/-- What a signal started is what its request returned. -/
theorem ready_started (p : Process ρ) (w : Worker ρ) :
    (w.ready p).agent.runtime = w.agent.runtime ∧ (w.ready p).started = w.started ∨
      ∃ request, w.agent.runtime = none ∧ env_flag p "Z4J_DISABLED" = false ∧
        is_celery_worker_invocation p.platform p.argv = true ∧
        (w.ready p).agent.runtime = (p.install_agent request).toOption ∧
        (w.ready p).started = w.started ++ (p.install_agent request).toOption.toList := by
  have hcases := ready_cases p w.agent
  unfold Worker.ready
  generalize final (on_worker_ready p w.agent) = agent at hcases
  cases hcases with
  | same =>
    left
    dsimp only
    rw [List.drop_length]
    exact ⟨rfl, List.append_nil _⟩
  | asked request hnone henabled hworker =>
    right
    refine ⟨request, hnone, henabled, hworker, rfl, ?_⟩
    dsimp only
    rw [List.drop_left, List.filterMap_cons]
    cases p.install_agent request <;> rfl

variable {s s' : State T ρ}

theorem inv_register {t : T} {move : Once.Move Unit} (hi : Inv s) (h : step s (.register t move) = some s') : Inv s' := by
  obtain ⟨registration, hstep, rfl⟩ := Option.map_eq_some_iff.1 h
  have hcases := Once.step_cases hstep
  have honce := Once.inv_step hcases hi.once
  cases hcases with
  | make a hpc => exact ⟨honce, by simpa [Once.State.goto] using hi.ready, hi.shutdown, hi.started⟩
  | @store a hpc =>
    refine ⟨honce, hi.ready, ?_, hi.started⟩
    show s.shutdown_connected + 1 = 1
    rw [hi.shutdown, (hi.once.storing t a hpc).1]
    rfl
  | look hpc => exact ⟨honce, hi.ready, hi.shutdown, hi.started⟩
  | acquire hpc hfree => exact ⟨honce, hi.ready, hi.shutdown, hi.started⟩
  | look_again hpc => exact ⟨honce, hi.ready, hi.shutdown, hi.started⟩
  | fail hpc => exact ⟨honce, hi.ready, hi.shutdown, hi.started⟩
  | release hpc => exact ⟨honce, hi.ready, hi.shutdown, hi.started⟩
  | read hpc => exact ⟨honce, hi.ready, hi.shutdown, hi.started⟩

theorem inv_step {e : Event T ρ} (hi : Inv s) (h : step s e = some s') : Inv s' := by
  cases e with
  | register t move => exact inv_register hi h
  | worker_ready p =>
    obtain rfl := Option.some.inj h
    split
    · exact hi
    refine ⟨hi.once, hi.ready, hi.shutdown, ?_⟩
    show (s.worker.ready p).started = s.worker.stopped ++ (s.worker.ready p).agent.runtime.toList
    rcases ready_started p s.worker with ⟨hruntime, hstarted⟩ | ⟨request, hnone, -, -, hruntime, hstarted⟩
    · rw [hruntime, hstarted, hi.started]
    · rw [hruntime, hstarted, hi.started, hnone, Option.toList_none, List.append_nil]
  | worker_shutdown stop =>
    obtain rfl := Option.some.inj h
    split
    · exact hi
    refine ⟨hi.once, hi.ready, hi.shutdown, ?_⟩
    rw [shutdown_final]
    simpa using hi.started

theorem run_inv {es : List (Event T ρ)} (h : run step es .init = some s) : Inv s :=
  Lib.run_inv (fun _ _ _ hi hs => inv_step hi hs) h inv_init

/-- A runtime that a run started is what `install_agent` returned in a process
that was to have one. -/
theorem started_run {es : List (Event T ρ)} (h : run step es s = some s') {r : ρ} (hr : r ∈ s'.worker.started) :
    r ∈ s.worker.started ∨ ∃ p request, .worker_ready p ∈ es ∧ is_celery_worker_invocation p.platform p.argv = true ∧
      env_flag p "Z4J_DISABLED" = false ∧ p.install_agent request = .ok r := by
  induction es generalizing s with
  | nil => exact .inl (Option.some.inj h ▸ hr)
  | cons e es ih =>
    obtain ⟨t, he, ht⟩ := run_cons.1 h
    rcases ih ht with hmem | ⟨p, request, hp, hrest⟩
    · cases e with
      | register u move =>
        obtain ⟨registration, -, rfl⟩ := Option.map_eq_some_iff.1 he
        cases move <;> exact .inl hmem
      | worker_ready p =>
        obtain rfl := Option.some.inj he
        split at hmem
        · exact .inl hmem
        rcases ready_started p s.worker with ⟨-, hstarted⟩ | ⟨request, -, henabled, hworker, -, hstarted⟩
        · exact .inl (hstarted ▸ hmem)
        · rcases List.mem_append.1 (hstarted ▸ hmem) with hmem | hmem
          · exact .inl hmem
          · refine .inr ⟨p, request, List.mem_cons_self, hworker, henabled, ?_⟩
            cases hinstall : p.install_agent request with
            | error e =>
              rw [hinstall] at hmem
              cases hmem
            | ok runtime =>
              rw [hinstall] at hmem
              rw [List.mem_singleton.1 hmem]
      | worker_shutdown stop =>
        obtain rfl := Option.some.inj he
        split at hmem
        · exact .inl hmem
        · rw [shutdown_final] at hmem
          exact .inl hmem
    · exact .inr ⟨p, request, List.mem_cons_of_mem e hp, hrest⟩

/-- In every run each handler is connected once at most, and a thread that
registers is never stuck. Runtimes are started only where a worker is to have one;
each has had its `stop` called once, in order, or is the one that the module
holds. Once its handler is connected, a shutdown calls `stop` on that one and
holds none, whether or not `stop` raises. -/
theorem agent_lifecycle {es : List (Event T ρ)} (h : run step es .init = some s) :
    s.ready_connected ≤ 1 ∧ s.shutdown_connected ≤ s.ready_connected ∧
      (∀ t, s.registration.pc t ≠ .out → ∃ u move, s.registration.pc u ≠ .out ∧ (step s (.register u move)).isSome = true) ∧
      (∀ r ∈ s.worker.started, ∃ p request, .worker_ready p ∈ es ∧ is_celery_worker_invocation p.platform p.argv = true ∧
        env_flag p "Z4J_DISABLED" = false ∧ p.install_agent request = .ok r) ∧
      s.worker.started = s.worker.stopped ++ s.worker.agent.runtime.toList ∧
      ∀ stop, s.shutdown_connected = 1 → ∃ s', step s (.worker_shutdown stop) = some s' ∧
        s'.worker.agent.runtime = none ∧ s'.worker.stopped = s.worker.started := by
  have hi := run_inv h
  refine ⟨?_, ?_, fun t ht => ?_, fun r hr => ?_, hi.started, fun stop hconnected => ?_⟩
  · rw [hi.ready]
    exact hi.once.made.1
  · rw [hi.ready, hi.shutdown]
    by_cases hstoring : ∃ t a, s.registration.pc t = .storing a
    · obtain ⟨t, a, hpc⟩ := hstoring
      rw [(hi.once.storing t a hpc).1]
      exact Nat.zero_le _
    · have hsettled := hi.once.settled fun t a hpc => hstoring ⟨t, a, hpc⟩
      exact Nat.le_of_eq (congrArg List.length hsettled.symm)
  · obtain ⟨u, move, registration, hstep, hu, -⟩ := hi.once.progress ht ()
    refine ⟨u, move, hu, ?_⟩
    rw [step, hstep]
    rfl
  · exact (started_run h hr).resolve_left List.not_mem_nil
  · refine ⟨_, rfl, ?_⟩
    rw [if_neg (by omega), shutdown_final]
    exact ⟨rfl, hi.started.symm⟩

/-- Two threads register at once; of three `worker_ready` the first and the last
start a runtime, and the shutdown between them calls `stop` on the first, which
raises. -/
theorem agent_lifecycle_twice :
    let raised : Exn := ⟨.OSError, "OSError", "closed"⟩
    let worker (runtime : Nat) : Process Nat := ⟨.posix, ["celery", "worker"], fun _ => none, .ok (.str "app"),
      .ok (.str "celery@web"), .ok (.str "app"), fun _ => .missing, fun _ => .ok runtime⟩
    let es : List (Event Bool Nat) := [.register true .look, .register false .look, .register true .acquire,
      .register true .look_again, .register true (.make ()), .worker_ready (worker 1), .register true .store,
      .register true .release, .register false .acquire, .register false .look_again, .register false .release,
      .worker_ready (worker 2), .worker_shutdown fun _ => .error raised, .worker_ready (worker 3)]
    ∃ s, run step es State.init = some s ∧ s.worker.started = [1, 3] ∧ s.worker.stopped = [1] ∧
      s.ready_connected ≤ 1 ∧ s.worker.started = s.worker.stopped ++ s.worker.agent.runtime.toList := by
  intro raised worker es
  have hend : (run step es State.init).map (fun s => (s.worker.started, s.worker.stopped)) = some ([1, 3], [1]) := by
    decide +kernel
  obtain ⟨s, hs, hend⟩ := Option.map_eq_some_iff.1 hend
  obtain ⟨hstarted, hstopped⟩ := Prod.mk.inj hend
  have hlife := agent_lifecycle hs
  exact ⟨s, hs, hstarted, hstopped, hlife.1, hlife.2.2.2.2.1⟩

end Z4jCelery.Bootstrap
