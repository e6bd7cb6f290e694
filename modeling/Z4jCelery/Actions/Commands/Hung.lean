import Z4jCelery.Actions.Commands.Programs
/-!
# A bulk retry on a pool whose threads hang

When all eight threads run calls that do not return, a bulk retry that comes
after them gives up after three of its ids: all it hears is timeouts. Nothing of
it is ever sent, also when the threads return (`bulk_retry_gives_up`).
-/

namespace Z4jCelery.Actions.Commands

open Py Z4jCelery.Core Offload Lib BulkRetry Breaker
open Programs (Job)

/-! ## Timeouts only -/

section Timeouts
variable {py : Interp} {w : World}

/-- A retry that never gets to run. -/
theorem single_retry_idle {i : Nat} (h : w.timing i = .outlives false) (call : Call) :
    (single_retry py w i call).1 = Retry.retry_failure offloadTimeoutError := by
  rw [single_retry, h]
  rfl

theorem results_idle (req : BulkRetry.Request) {r : CommandResult} {single : Single} (h : ∀ i call, single i call = r)
    (i : Nat) (tids : List String) : results single req i tids = tids.map fun tid => (call_for req tid, r) := by
  induction tids generalizing i with
  | nil => rfl
  | cons tid tids ih => rw [results, ih, h, List.map_cons]

theorem renewed_idle {r : CommandResult} (hr : new_task_id r = none) {l : List (Call × CommandResult)}
    (h : ∀ x ∈ l, x.2 = r) : renewed l = [] := by
  refine List.filterMap_eq_nil_iff.2 fun x hx => ?_
  rw [h x hx, hr]
  rfl

/-- The breaker trips at the third timeout. -/
theorem bulk_retry_idle (h : ∀ i, w.timing i = .outlives false) (filter : List (String × Val)) (max : Int)
    (hids : ids (bulk_request py filter max) ≠ []) :
    let a := (BulkRetry.bulk_retry py w filter max).1
    let n := (capped_ids (bulk_request py filter max)).length
    a.field "circuit_broken" = .bool (decide (3 ≤ n)) ∧ a.field "skipped" = .int (n - min n 3 : Nat) ∧
      a.field "succeeded" = .int 0 := by
  intro a n
  have hsingle : ∀ i call, (single_retry py w i call).1 = Retry.retry_failure offloadTimeoutError :=
    fun i call => single_retry_idle (h i) call
  have hresults := results_idle (bulk_request py filter max) hsingle 0 (capped_ids (bulk_request py filter max))
  have houtcomes : outcomes (fun i call => (single_retry py w i call).1) (bulk_request py filter max) =
      List.replicate n .indeterminate := by
    rw [outcomes, hresults, List.map_map, ← List.map_const']
    rfl
  have hstop : stop circuit_break_after 0 (List.replicate n .indeterminate) = (min n 3, decide (3 ≤ n)) :=
    stop_replicate (by decide) n
  have hmade := made_length (fun i call => (single_retry py w i call).1) (bulk_request py filter max)
  have hrenewed : renewed (made (fun i call => (single_retry py w i call).1) (bulk_request py filter max)) = [] := by
    refine renewed_idle (r := Retry.retry_failure offloadTimeoutError) rfl fun x hx => ?_
    rw [made, hresults] at hx
    obtain ⟨tid, -, rfl⟩ := List.mem_map.1 (List.mem_of_mem_take hx)
    rfl
  rw [houtcomes, hstop] at hmade
  show (bulk_retry_action _ _).1.field _ = _ ∧ (bulk_retry_action _ _).1.field _ = _ ∧
    (bulk_retry_action _ _).1.field _ = _
  rw [bulk_retry_action_cons _ hids, summary_eq, houtcomes, hstop, hmade, hrenewed]
  exact ⟨rfl, rfl, rfl⟩

end Timeouts

/-! ## On the pool -/

section Pool
variable {P : Type} [DecidableEq P] {py : Interp} {requests : P → Request} {app : P → Nat → App} {now : P → Nat → Int}
  {s s' : Programs.State P (List (P × Op)) CommandResult}

omit [DecidableEq P] in
/-- Only a command whose call takes effect asks the broker. -/
theorem acted_of_world (hi : Programs.Inv on_pool (programs py requests app now) [] s) {p : P} {op : Op}
    (hop : (p, op) ∈ s.calls.world) : ∃ j ∈ s.calls.acted, j.1 = p := by
  rw [on_pool_eq] at hi
  rw [Programs.world_ops hi] at hop
  obtain ⟨j, hj, hop⟩ := List.mem_flatMap.1 hop
  obtain ⟨_, -, he⟩ := List.mem_map.1 hop
  exact ⟨j, hj, (Prod.mk.inj he).1⟩

/-- From when all eight threads run calls that do not return: a bulk retry that
has made no call before gives up after three ids, renews none, and never sends
anything, also when the threads return. -/
theorem bulk_retry_gives_up {es es' : List (Calls.Event (Job P CommandResult))}
    (h : run (Programs.step on_pool (programs py requests app now)) es (Programs.init []) = some s)
    (hfull : s.calls.pool.running.length = 8)
    (h' : run (Programs.step on_pool (programs py requests app now)) es' s = some s') (hhung : ∀ j, .finish j ∉ es')
    {p : P} (hnew : ∀ j ∈ s.calls.pool.started, j.1 ≠ p) {filter : List (String × Val)} {max : Int}
    (hp : requests p = .bulk_retry filter max) (hids : ids (bulk_request py filter max) ≠ []) {a : CommandResult}
    (hanswer : ((programs py requests app now p).after (s'.heard p)).answer = some a) :
    let n := (capped_ids (bulk_request py filter max)).length
    a.field "circuit_broken" = .bool (decide (3 ≤ n)) ∧ a.field "skipped" = .int (n - min n 3 : Nat) ∧
      a.field "succeeded" = .int 0 ∧
      ∀ es'' s'', run (Programs.step on_pool (programs py requests app now)) es'' s' = some s'' →
        ∀ op, (p, op) ∉ s''.calls.world := by
  intro n
  have hi' := Programs.inv_run h' (Programs.run_inv h)
  have hstalled := fun j (hj : j.1 = p) =>
    Calls.hung_call (Programs.run_calls h) hfull (Programs.run_calls h') hhung (j := j) fun hstart => hnew j hstart hj
  have hidle : ∀ i, s'.timing p i = .outlives false := fun i => hi'.calls.timing_idle (hstalled (p, _) rfl).2.1
  obtain ⟨ops, halone, -⟩ := answered_alone (run_append.trans (by rw [h]; exact h')) hanswer
  rw [hp] at halone
  obtain ⟨hbroken, hskipped, hsucceeded⟩ :=
    @bulk_retry_idle py (retry_world (app p) (now p) (s'.timing p)) hidle filter max hids
  rw [← show a = (BulkRetry.bulk_retry py (retry_world (app p) (now p) (s'.timing p)) filter max).1 from
    (congrArg Prod.fst halone).symm] at hbroken hskipped hsucceeded
  refine ⟨hbroken, hskipped, hsucceeded, fun es'' s'' h'' op hop => ?_⟩
  -- a call of `p` that acts was answered by a timeout before
  obtain ⟨j, hj, rfl⟩ := acted_of_world (Programs.inv_run h'' hi') hop
  obtain ⟨r, hr⟩ := Programs.ended_answered h'' hi' hanswer hj
  obtain ⟨hstart, -, htimeout⟩ := hstalled j rfl
  exact hi'.calls.withdrawn_never (htimeout r hr).2 hstart (Programs.run_calls h'') hj

/-- Eight cancellations hang, and a bulk retry of four tasks comes after them. -/
theorem bulk_retry_gives_up_four :
    let raised : Exn := ⟨.OSError, "OSError", "connection refused"⟩
    let app : App := ⟨.ok none, fun _ => .error raised, fun _ => .error raised, ⟨.error raised, fun _ => .error raised,
      fun _ => .error raised⟩, .ok fun _ _ _ => .ok (), .error raised, ⟨.error raised⟩⟩
    let py : Interp := .plain
    let filter : List (String × Val) := [("task_ids", .list [.str "a", .str "b", .str "c", .str "d"])]
    let commands := programs py (fun p : Nat => if p = 8 then .bulk_retry filter 10 else .command (.cancel_task "x"))
      (fun _ _ => app) fun _ _ => 0
    let hung : List (Calls.Event (Job Nat CommandResult)) :=
      (List.range 8).map (fun p => .submit (p, [])) ++ List.replicate 8 .start
    let timeout : Except Exn CommandResult := .error offloadTimeoutError
    let retried : List (Calls.Event (Job Nat CommandResult)) := [.submit (8, []), .expire (8, []), .submit (8, [timeout]),
      .expire (8, [timeout]), .submit (8, [timeout, timeout]), .expire (8, [timeout, timeout])]
    ∃ s s' a, run (Programs.step on_pool commands) hung (Programs.init []) = some s ∧
      run (Programs.step on_pool commands) retried s = some s' ∧
      ((commands 8).after (s'.heard 8)).answer = some a ∧ a.field "skipped" = .int 1 ∧
      ∀ es'' s'', run (Programs.step on_pool commands) es'' s' = some s'' → ∀ op, (8, op) ∉ s''.calls.world := by
  intro raised app py filter commands hung timeout retried
  have hfirst : (run (Programs.step on_pool commands) hung (Programs.init [])).map (fun s =>
      (s.calls.pool.running.length, s.calls.pool.started.map Prod.fst)) = some (8, List.range 8) := by decide +kernel
  have hboth : (run (Programs.step on_pool commands) (hung ++ retried) (Programs.init [])).map (fun s' =>
      ((commands 8).after (s'.heard 8)).answer.isSome) = some true := by decide +kernel
  obtain ⟨s, hs, hfirst⟩ := Option.map_eq_some_iff.1 hfirst
  obtain ⟨hfull, hstarted⟩ := Prod.mk.inj hfirst
  rw [run_append, hs] at hboth
  obtain ⟨s', hs', hend⟩ := Option.map_eq_some_iff.1 hboth
  obtain ⟨a, ha⟩ := Option.isSome_iff_exists.1 hend
  have hnew : ∀ j ∈ s.calls.pool.started, j.1 ≠ 8 := by
    intro j hj h8
    have hmem : j.1 ∈ List.range 8 := hstarted ▸ List.mem_map_of_mem hj
    rw [h8] at hmem
    exact absurd hmem (by decide)
  have hgives := bulk_retry_gives_up hs hfull hs' (by simp [retried]) hnew rfl (by decide +kernel) ha
  exact ⟨s, s', a, hs, hs', ha, hgives.2.1, hgives.2.2.2⟩

end Pool

end Z4jCelery.Actions.Commands
