import Z4jCelery.Actions.Commands.Programs
import Z4jCelery.Offload.Programs.Planned
/-!
# What commands may ask for

A command plans its calls before it makes the first: a bulk retry one for each of
its capped ids, in their order. However its calls go on the pool, and before it is
answered as well as after, it has asked the broker for each of them once at most,
and for nothing else (`asked_as_planned`).
-/

namespace Z4jCelery.Actions.Commands

open Py Z4jCelery.Core Offload Lib BulkRetry
open Programs (Program Job)

/-- The retries of the ids, from the `i`-th on. -/
def retries (py : Interp) (app : Nat → App) (req : BulkRetry.Request) : Nat → List String → List Offloaded
  | _, [] => []
  | i, tid :: tids => retry py (app i) (retry_request (call_for req tid)) none :: retries py app req (i + 1) tids

/-- The calls that a command may make. -/
def Request.planned (py : Interp) (app : Nat → App) (now : Nat → Int) : Request → List Offloaded
  | .command c => (c.start py (app 0) (now 0)).toOption.toList
  | .bulk_retry filter max =>
    let req := bulk_request py filter max
    retries py app req 0 (capped_ids req)

section Plan
variable {py : Interp} {app : Nat → App} {now : Nat → Int} {req : BulkRetry.Request}

theorem retries_length (i : Nat) (tids : List String) : (retries py app req i tids).length = tids.length := by
  induction tids generalizing i with
  | nil => rfl
  | cons tid tids ih => rw [retries, List.length_cons, List.length_cons, ih]

theorem retries_append (i : Nat) (xs ys : List String) :
    retries py app req i (xs ++ ys) = retries py app req i xs ++ retries py app req (i + xs.length) ys := by
  induction xs generalizing i with
  | nil => rfl
  | cons tid xs ih =>
    rw [List.cons_append, retries, retries, ih, List.cons_append, List.length_cons]
    congr 3
    omega

/-- A batch makes the calls of its ids, unless it is broken off. -/
theorem retry_batch_follows {k : Loop → CommandProgram} {rest : List Offloaded} (tids : List String) (s : Loop)
    (hbroken : ∀ s' ks, s'.broker_unhealthy = true → (k s').Follows ks)
    (hend : ∀ s', s'.processed = s.processed + tids.length → (k s').Follows rest) :
    (retry_batch (start_retry py app now) req tids s k).Follows (retries py app req s.processed tids ++ rest) := by
  induction tids generalizing s with
  | nil => exact hend s rfl
  | cons tid tids ih =>
    refine Program.Follows.call fun r => ?_
    simp only
    split
    · exact hbroken _ _ rfl
    · refine ih (BulkRetry.record s (call_for req tid) _) fun s' hs' => hend s' (hs'.trans ?_)
      exact Nat.add_right_comm s.processed 1 tids.length

/-- The batches from the `a`-th on make the calls of the ids that are left. -/
theorem retry_batches_follows {k : Loop → CommandProgram} (hk : ∀ s ks, (k s).Follows ks) (ids : List String)
    (m a : Nat) (s : Loop) (hs : s.processed = min (a * 100) ids.length) :
    (retry_batches (start_retry py app now) req ids ((List.range' a m).map (· * 100)) s k).Follows
      (retries py app req s.processed (ids.drop (a * 100))) := by
  induction m generalizing a s with
  | zero => exact hk s _
  | succ m ih =>
    rw [List.range'_succ, List.map_cons, retry_batches]
    split
    · exact hk s _
    · have hnext : (a + 1) * 100 = a * 100 + 100 := by omega
      have hsplit : retries py app req s.processed (ids.drop (a * 100)) =
          retries py app req s.processed ((ids.drop (a * 100)).take 100) ++
            retries py app req (s.processed + ((ids.drop (a * 100)).take 100).length) (ids.drop ((a + 1) * 100)) := by
        rw [← retries_append, hnext, ← List.drop_drop, List.take_append_drop]
      have htake : ((ids.drop (a * 100)).take 100).length = min 100 (ids.length - a * 100) := by
        rw [List.length_take, List.length_drop]
      rw [hsplit]
      apply retry_batch_follows
      · intro s' ks hbroken
        cases (List.range' (a + 1) m).map (· * 100) with
        | nil => exact hk s' ks
        | cons start starts =>
          rw [retry_batches, if_pos hbroken]
          exact hk s' ks
      · intro s' hs'
        have hat : s'.processed = min ((a + 1) * 100) ids.length := by omega
        rw [← hs']
        exact ih (a + 1) s' hat

theorem bulk_program_follows (py : Interp) (app : Nat → App) (now : Nat → Int) (req : BulkRetry.Request) :
    (bulk_program (start_retry py app now) req).Follows (retries py app req 0 (capped_ids req)) := by
  unfold bulk_program
  split
  · exact .done
  · rw [batch_starts, List.range_eq_range']
    exact retry_batches_follows (fun _ _ => .done) (capped_ids req) _ 0 Loop.start (by simp [Loop.start])

end Plan

theorem program_follows (py : Interp) (app : Nat → App) (now : Nat → Int) (r : Request) :
    (r.program py app now).Follows (r.planned py app now) := by
  cases r with
  | bulk_retry filter max => exact bulk_program_follows py app now _
  | command c =>
    rw [Request.program, Command.program, Request.planned]
    cases c.start py (app 0) (now 0) with
    | error r => exact .done
    | ok o => exact .call fun r => .done

/-! ## The number of broker calls -/

/-- A call asks the broker for one thing at most. -/
theorem asked_length (os : List Offloaded) : (os.flatMap requested).length ≤ os.length := by
  induction os with
  | nil => exact Nat.le_refl 0
  | cons o os ih =>
    have hone : (requested o).length ≤ 1 := by
      rw [requested]
      exact Option.length_toList_le
    rw [List.flatMap_cons, List.length_append, List.length_cons]
    omega

/-- A cap that is not negative holds, and so does the hard one. -/
theorem capped_ids_length {req : BulkRetry.Request} (h : 0 ≤ req.max) :
    ((capped_ids req).length : Int) ≤ min req.max BULK_RETRY_HARD_CAP := by
  have heff : 0 ≤ effective_cap req := by
    unfold effective_cap BULK_RETRY_HARD_CAP
    omega
  rw [capped_ids]
  split
  · rw [sliceTo_nonneg _ _ heff, List.length_take, ← effective_cap]
    omega
  · rename_i hcapped
    simp only [capped, decide_eq_true_eq] at hcapped
    rw [← effective_cap]
    omega

/-! ## Commands on the pool -/

section Pool
variable {P : Type} [DecidableEq P] {py : Interp} {requests : P → Request} {app : P → Nat → App} {now : P → Nat → Int}
  {s : Programs.State P (List (P × Op)) CommandResult}

/-- Whatever commands share the pool, at any point of any run: what a command has
asked the broker for is part of what its calls ask for, nothing of it twice. A
bulk retry under a cap has not asked for more than the cap, nor the hard one. -/
theorem asked_as_planned {es : List (Calls.Event (Job P CommandResult))}
    (h : run (Programs.step on_pool (programs py requests app now)) es (Programs.init []) = some s) (p : P) :
    let asked := (s.calls.world.filter fun x => x.1 = p).map Prod.snd
    asked.Subperm (((requests p).planned py (app p) (now p)).flatMap requested) ∧
      ∀ filter max, requests p = .bulk_retry filter max → 0 ≤ max → (asked.length : Int) ≤ min max BULK_RETRY_HARD_CAP := by
  rw [on_pool_eq] at h
  intro asked
  have hplanned : asked.Subperm (((requests p).planned py (app p) (now p)).flatMap requested) :=
    Programs.asked_planned (Programs.run_inv h) (program_follows py (app p) (now p) (requests p))
  refine ⟨hplanned, fun filter max hrequest hmax => ?_⟩
  have hlength := Nat.le_trans hplanned.length_le (asked_length _)
  rw [hrequest, Request.planned, retries_length] at hlength
  have hcap : ((capped_ids (bulk_request py filter max)).length : Int) ≤ min max BULK_RETRY_HARD_CAP :=
    capped_ids_length hmax
  omega

/-- The second retry of a bulk retry has been sent, and its wait is not over. -/
theorem asked_as_planned_two :
    let raised : Exn := ⟨.OSError, "OSError", "connection refused"⟩
    let stored : Retry.AsyncResult := ⟨.ok .none, .ok .none, .ok (.list []), .ok (.dict [])⟩
    let app : App := ⟨.ok none, fun _ => .error raised, fun _ => .error raised, ⟨.error raised, fun _ => .ok stored,
      fun _ => .ok ⟨.ok (.str "new"), .ok .none⟩⟩, .ok fun _ _ _ => .ok (), .error raised, ⟨.error raised⟩⟩
    let py : Interp := .plain
    let requests : Bool → Request := fun bulk => if bulk then .bulk_retry [("task_ids", .list [.str "a", .str "b"]),
      ("task_names", .dict [("a", .str "app.add"), ("b", .str "app.add")])] 2 else .command (.cancel_task "c")
    let first : Except Exn CommandResult := .ok (Retry.retry_success "app.add" "new" none)
    let es : List (Calls.Event (Job Bool CommandResult)) := [.submit (true, []), .submit (false, []), .start, .start,
      .act (true, []), .finish (true, []), .answer (true, []), .submit (true, [first]), .start, .act (true, [first])]
    ∃ s, run (Programs.step on_pool (programs py requests (fun _ _ => app) fun _ _ => 0)) es (Programs.init []) = some s ∧
      s.calls.world.map Prod.fst = [true, true] ∧
      let asked := (s.calls.world.filter fun x => x.1 = true).map Prod.snd
      asked.Subperm (((requests true).planned py (fun _ => app) fun _ => 0).flatMap requested) ∧
        (asked.length : Int) ≤ min 2 BULK_RETRY_HARD_CAP := by
  intro raised stored app py requests first es
  have hend : (run (Programs.step on_pool (programs py requests (fun _ _ => app) fun _ _ => 0)) es
      (Programs.init [])).map (fun s => s.calls.world.map Prod.fst) = some [true, true] := by
    decide +kernel
  obtain ⟨s, hs, hworld⟩ := Option.map_eq_some_iff.1 hend
  obtain ⟨hplanned, hcap⟩ := asked_as_planned hs true
  exact ⟨s, hs, hworld, hplanned, hcap _ 2 rfl (by decide)⟩

end Pool

end Z4jCelery.Actions.Commands
