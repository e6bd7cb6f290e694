import Z4jCelery.Actions.Commands.Planned
/-!
# Every command is answered

A command makes one call at most, a bulk retry one for each of its capped ids
(`program_atMost`). So every run of commands on the pool is bounded; each of them
is answered once its own waits are over, whatever hangs; and while one is not,
the pool goes on without any timeout (`commands_end`).
-/

namespace Z4jCelery.Actions.Commands

open Py Z4jCelery.Core Offload Lib BulkRetry
open Programs (Program Job OwnWait)

/-! ## The calls of a command -/

/-- The most calls that a command makes. -/
def Request.calls (py : Interp) : Request → Nat
  | .command _ => 1
  | .bulk_retry filter max => (capped_ids (bulk_request py filter max)).length

/-- They are the calls that it plans. -/
theorem planned_length (py : Interp) (app : Nat → App) (now : Nat → Int) (r : Request) :
    (r.planned py app now).length ≤ r.calls py := by
  cases r with
  | command c =>
    rw [Request.planned]
    exact Option.length_toList_le
  | bulk_retry filter max => exact Nat.le_of_eq (retries_length 0 _)

theorem program_atMost (py : Interp) (app : Nat → App) (now : Nat → Int) (r : Request) :
    (r.program py app now).AtMost (r.calls py) :=
  (program_follows py app now r).atMost.mono (planned_length py app now r)

/-! ## Commands on the pool -/

section Pool
variable {P : Type} [DecidableEq P] [Fintype P] {py : Interp} {requests : P → Request} {app : P → Nat → App}
  {now : P → Nat → Int} {s : Programs.State P (List (P × Op)) CommandResult}

/-- A run of commands has at most five events for each call that they may make.
Wherever it is, the calls and timeouts of a command alone bring it to its answer;
and where nothing but timeouts can happen, all commands are answered and no
thread has work. -/
theorem commands_end {es : List (Calls.Event (Job P CommandResult))}
    (h : run (Programs.step on_pool (programs py requests app now)) es (Programs.init []) = some s) :
    es.length ≤ 5 * ∑ p, (requests p).calls py ∧
    (∀ p, ∃ es' s', (∀ e ∈ es', OwnWait p e) ∧ run (Programs.step on_pool (programs py requests app now)) es' s = some s' ∧
      ((programs py requests app now p).after (s'.heard p)).answer.isSome = true) ∧
    (Programs.Idle on_pool (programs py requests app now) s →
      (∀ p, ((programs py requests app now p).after (s.heard p)).answer.isSome = true) ∧
      s.calls.pool.running = [] ∧ s.calls.pool.waiting = []) := by
  have hmost : ∀ p, (programs py requests app now p).AtMost ((requests p).calls py) :=
    fun p => program_atMost py (app p) (now p) (requests p)
  refine ⟨Programs.length_le hmost h, fun p => ?_, fun hidle => Programs.idle h hidle⟩
  exact (Programs.run_inv h).ends_alone ((hmost p).after (s.heard p))

/-- A bulk retry of two tasks was answered; a cancellation beside it hangs, and is
answered yet. -/
theorem commands_end_two :
    let raised : Exn := ⟨.OSError, "OSError", "connection refused"⟩
    let stored : Retry.AsyncResult := ⟨.ok .none, .ok .none, .ok (.list []), .ok (.dict [])⟩
    let app : App := ⟨.ok none, fun _ => .error raised, fun _ => .error raised, ⟨.error raised, fun _ => .ok stored,
      fun _ => .ok ⟨.ok (.str "new"), .ok .none⟩⟩, .ok fun _ _ _ => .ok (), .error raised, ⟨.error raised⟩⟩
    let py : Interp := .plain
    let requests : Bool → Request := fun bulk => if bulk then .bulk_retry [("task_ids", .list [.str "a", .str "b"]),
      ("task_names", .dict [("a", .str "app.add"), ("b", .str "app.add")])] 10 else .command (.cancel_task "c")
    let first : Except Exn CommandResult := .ok (Retry.retry_success "app.add" "new" none)
    let commands := programs py requests (fun _ _ => app) fun _ _ => 0
    let es : List (Calls.Event (Job Bool CommandResult)) := [.submit (true, []), .submit (false, []), .start, .start,
      .act (true, []), .finish (true, []), .answer (true, []), .submit (true, [first]), .expire (true, [first])]
    ∃ s, run (Programs.step on_pool commands) es (Programs.init []) = some s ∧ s.heard false = [] ∧
      es.length ≤ 5 * ∑ p, (requests p).calls py ∧ ∃ es' s', (∀ e ∈ es', OwnWait false e) ∧
        run (Programs.step on_pool commands) es' s = some s' ∧ ((commands false).after (s'.heard false)).answer.isSome = true := by
  intro raised stored app py requests first commands es
  have hend : (run (Programs.step on_pool commands) es (Programs.init [])).map (fun s => s.heard false) = some [] := by
    decide +kernel
  obtain ⟨s, hs, hheard⟩ := Option.map_eq_some_iff.1 hend
  obtain ⟨hlength, halone, -⟩ := commands_end hs
  exact ⟨s, hs, hheard, hlength, halone false⟩

end Pool

end Z4jCelery.Actions.Commands
