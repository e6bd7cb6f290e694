import Z4jCelery.Actions.BulkRetry.Theorems
/-!
# Who counts as timed out

The wait's expiry and a `TimeoutError` of the call itself reach `offload` as one
class, and so does a `StopIteration`, of which the wait hears nothing. So a call
that fails in time with one is reported as outlived, by a retry and by the
breaker of a bulk retry.
-/

namespace Z4jCelery.Actions.Timeouts

open Py Z4jCelery.Core Offload

variable {σ α : Type}

/-! ## `offload` -/

/-- A `TimeoutError`, a `StopIteration`, or the class that `offload` itself
raises. -/
def PassesForTimeout (e : Exn) : Prop :=
  e.cls = .TimeoutError ∨ e.cls = .StopIteration true ∨ e.cls = offloadTimeoutError.cls

/-- An exception that comes out of a wait as another one, or as a timeout: these,
a subclass of `StopIteration`, and those of `concurrent.futures` that `asyncio`
has its own for. -/
def Altered : BaseExn → Prop
  | .exn e => PassesForTimeout e ∨ e.cls = .StopIteration false ∨ e.cls = .FuturesInvalidStateError
  | .cancelled _ => True
  | .base _ _ => False

/-- The call itself ends in an exception that passes for a timeout. -/
def RaisesTimeout (r : EStateM.Result Exn σ α) : Prop := ∃ e s, r = .error e s ∧ PassesForTimeout e

/-- `OffloadTimeoutError` is raised. -/
def TimedOut (r : EStateM.Result BaseExn σ α) : Prop := ∃ e s, r = .error (.exn e) s ∧ e.cls = offloadTimeoutError.cls

/-- `offload` times out exactly when the call outlives its bound, and passes on
what the call does in time. -/
def Honest (t : Timing) (fn : EStateM BaseExn σ α) (s : σ) : Prop :=
  (TimedOut (offload_any t fn s) ↔ t ≠ .inTime) ∧ (t = .inTime → offload_any t fn s = fn s)

theorem not_timedOut_ok {a : α} {s : σ} : ¬ TimedOut (.ok a s : EStateM.Result BaseExn σ α) := by
  rintro ⟨_, _, h, _⟩
  cases h

theorem timedOut_exn {e : Exn} {s : σ} :
    TimedOut (.error (.exn e) s : EStateM.Result BaseExn σ α) ↔ e.cls = offloadTimeoutError.cls := by
  constructor
  · rintro ⟨e', s', h, he⟩
    cases h
    exact he
  · exact fun he => ⟨e, s, rfl, he⟩

/-- An exception that is not altered comes out as it is, and is no timeout; one
that is comes out as a timeout or as another. -/
theorem heard_iff (e : BaseExn) (s : σ) :
    (¬ TimedOut (.error e.heard s : EStateM.Result BaseExn σ α) ∧ e.heard = e) ↔ ¬ Altered e := by
  cases e with
  | cancelled msg =>
    refine iff_of_false ?_ (not_not.2 trivial)
    rintro ⟨-, h⟩
    cases h
  | base name msg =>
    refine iff_of_true ⟨?_, rfl⟩ id
    rintro ⟨_, _, h, _⟩
    cases h
  | exn e =>
    rw [BaseExn.heard, timedOut_exn, heard_timeout_iff, BaseExn.exn.injEq, Altered]
    refine (and_congr_right fun hno => ?_).trans not_or.symm
    rw [not_or, not_or] at hno
    obtain ⟨htimeout, hstop, -⟩ := hno
    rw [← not_iff_not, not_not]
    constructor
    · intro hne
      by_contra hother
      rw [not_or] at hother
      refine hne (heard_eq_self ?_)
      rintro (h | ⟨itself, h⟩ | h)
      · exact htimeout h
      · cases itself with
        | true => exact hstop h
        | false => exact hother.1 h
      · exact hother.2 h
    · rintro (h | h) heq
      · rw [heard, h] at heq
        rw [← heq] at h
        cases h
      · rw [heard, h] at heq
        rw [← heq] at h
        cases h

theorem honest_iff (t : Timing) (fn : EStateM BaseExn σ α) (s : σ) :
    Honest t fn s ↔ (t = .inTime → ¬ ∃ e s', fn s = .error e s' ∧ Altered e) := by
  cases t with
  | outlives runs =>
    refine iff_of_true ⟨iff_of_true (timedOut_exn.2 rfl) nofun, nofun⟩ nofun
  | inTime =>
    rw [Honest]
    cases hf : fn s with
    | ok a s' =>
      rw [offload_any_ok hf]
      refine iff_of_true ⟨iff_of_false not_timedOut_ok fun h => h rfl, fun _ => rfl⟩ fun _ => ?_
      rintro ⟨_, _, h, _⟩
      cases h
    | error e s' =>
      rw [offload_any_error hf]
      have hraises : (∃ e' s'', (.error e s' : EStateM.Result BaseExn σ α) = .error e' s'' ∧ Altered e') ↔ Altered e := by
        constructor
        · rintro ⟨_, _, h, he⟩
          cases h
          exact he
        · exact fun he => ⟨e, s', rfl, he⟩
      have hsame : (.error e.heard s' : EStateM.Result BaseExn σ α) = .error e s' ↔ e.heard = e := by simp
      rw [hraises, hsame, ← @heard_iff σ α e s']
      simp

/-- A call that raises subclasses of `Exception` times out when it outlives its
bound or raises what passes for a timeout. -/
theorem offload_timedOut_iff (t : Timing) (fn : PyM σ α) (s : σ) :
    (∃ e s', offload t fn s = .error e s' ∧ e.cls = offloadTimeoutError.cls) ↔ t ≠ .inTime ∨ RaisesTimeout (fn s) := by
  cases t with
  | outlives runs =>
    rw [offload_outlives]
    exact iff_of_true ⟨_, _, rfl, rfl⟩ (.inl nofun)
  | inTime =>
    rw [or_iff_right (fun h => h rfl)]
    cases hf : fn s with
    | ok a s' =>
      rw [offload_ok hf]
      exact iff_of_false (fun ⟨_, _, h, _⟩ => by cases h) (fun ⟨_, _, h, _⟩ => by cases h)
    | error e s' =>
      rw [offload_error hf]
      constructor
      · rintro ⟨_, _, h, he⟩
        cases h
        exact ⟨e, s', rfl, (heard_timeout_iff e).1 he⟩
      · rintro ⟨_, _, h, he⟩
        cases h
        exact ⟨_, _, rfl, (heard_timeout_iff _).2 he⟩

/-! ## A retry -/

section Retry
open Retry

/-- The start time is good and the lookup or the call of `send_task` ends in a
timeout exception. -/
def RetryRaisesTimeout (py : Interp) (app : App) (now : Int) (req : Request) : Prop :=
  ∃ eta_dt, eta_from_timestamp py now req.eta = .ok eta_dt ∧ RaisesTimeout (do_retry_io py app req eta_dt [])

theorem isa_offloadTimeoutError {e : Exn} : e.isa offloadTimeoutError.cls = true ↔ e.cls = offloadTimeoutError.cls := by
  have hnot : (decide (offloadTimeoutError.cls = .OSError) && decide (e.cls = .TimeoutError)) = false := rfl
  rw [Exn.isa, hnot, Bool.or_false, decide_eq_true_iff]

theorem retry_failure_indeterminate (exc : Exn) :
    (retry_failure exc).indeterminate = true ↔ exc.cls = offloadTimeoutError.cls := by
  rw [retry_failure, ← isa_offloadTimeoutError]
  split
  · rename_i h
    exact iff_of_true rfl h
  · rename_i h
    refine iff_of_false ?_ h
    split <;> exact Bool.false_ne_true

theorem retry_success_determinate (name id : String) (priority : Option Int) :
    (retry_success name id priority).indeterminate = false := rfl

/-- The answer is indeterminate when the call is reported as timed out. -/
theorem retry_indeterminate_iff (py : Interp) (app : App) (timing : Timing) (now : Int) (req : Request) :
    (retry_task_action py app timing now req).1.indeterminate = true ↔
      ∃ eta_dt, eta_from_timestamp py now req.eta = .ok eta_dt ∧
        (timing ≠ .inTime ∨ RaisesTimeout (do_retry_io py app req eta_dt [])) := by
  rw [retry_task_action]
  cases heta : eta_from_timestamp py now req.eta with
  | error exc =>
    refine iff_of_false Bool.false_ne_true ?_
    rintro ⟨_, h, _⟩
    cases h
  | ok eta_dt =>
    simp only [Except.ok.injEq, exists_eq_left', ← offload_timedOut_iff]
    cases offload timing (do_retry_io py app req eta_dt) [] with
    | ok r calls =>
      obtain ⟨name, id, priority⟩ := r
      refine iff_of_false (by simp [retry_success_determinate]) ?_
      rintro ⟨_, _, h, _⟩
      cases h
    | error exc calls =>
      rw [retry_failure_indeterminate]
      refine ⟨fun h => ⟨exc, calls, rfl, h⟩, ?_⟩
      rintro ⟨_, _, h, he⟩
      cases h
      exact he

theorem retry_honest_iff (py : Interp) (app : App) (timing : Timing) (now : Int) (req : Request) :
    ((retry_task_action py app timing now req).1.indeterminate = true ↔
      (∃ eta_dt, eta_from_timestamp py now req.eta = .ok eta_dt) ∧ timing ≠ .inTime) ↔
    (timing = .inTime → ¬ RetryRaisesTimeout py app now req) := by
  rw [retry_indeterminate_iff, RetryRaisesTimeout]
  constructor
  · rintro hiff ht ⟨eta_dt, heta, hraise⟩
    exact (hiff.1 ⟨eta_dt, heta, .inr hraise⟩).2 ht
  · intro h
    constructor
    · rintro ⟨eta_dt, heta, hor⟩
      refine ⟨⟨eta_dt, heta⟩, fun ht => ?_⟩
      exact h ht ⟨eta_dt, heta, hor.resolve_left fun hne => hne ht⟩
    · rintro ⟨⟨eta_dt, heta⟩, ht⟩
      exact ⟨eta_dt, heta, .inl ht⟩

/-- A timeout exception before `send_task`: nothing was sent, and the answer
leaves it open. -/
theorem retry_timeout_before_send {py : Interp} {app : App} {now : Int} {req : Request} {eta_dt : Option Int} {e : Exn}
    (heta : eta_from_timestamp py now req.eta = .ok eta_dt) (hsig : signature py app req eta_dt = .error e)
    (he : PassesForTimeout e) :
    (retry_task_action py app .inTime now req).1.indeterminate = true ∧
      (retry_task_action py app .inTime now req).2 = [] := by
  have hio := do_retry_io_error hsig []
  constructor
  · rw [retry_indeterminate_iff]
    exact ⟨eta_dt, heta, .inr ⟨e, _, hio, he⟩⟩
  · rw [retry_task_action, heta]
    simp only [offload_error hio]

end Retry

/-! ## The breaker of a bulk retry -/

section BulkRetry
open BulkRetry

/-- The loop counts the answer as a timeout. -/
def CountsTimeout (x : Call × CommandResult) : Prop :=
  ∀ s : Loop, (record s x.1 x.2).consecutive_timeouts = s.consecutive_timeouts + 1

theorem countsTimeout_iff (x : Call × CommandResult) : CountsTimeout x ↔ x.2.indeterminate = true := by
  constructor
  · intro h
    have hstart := h Loop.start
    by_contra hno
    rw [record] at hstart
    simp only [if_neg hno, Loop.start] at hstart
    split at hstart <;> omega
  · intro h s
    rw [record]
    exact if_pos h

theorem getElem?_results (single : Single) (req : Request) (i j : Nat) (tids : List String) :
    (results single req i tids)[j]? = (tids[j]?).map fun tid => (call_for req tid, single (i + j) (call_for req tid)) := by
  induction tids generalizing i j with
  | nil => rfl
  | cons tid tids ih =>
    rw [results]
    cases j with
    | zero => rfl
    | succ j =>
      rw [List.getElem?_cons_succ, List.getElem?_cons_succ, ih, Nat.add_right_comm, Nat.add_assoc]

theorem made_single {single : Single} {req : Request} {i : Nat} {x : Call × CommandResult}
    (h : (made single req)[i]? = some x) : x.2 = single i x.1 := by
  rw [made, List.getElem?_take] at h
  split at h
  · rw [getElem?_results] at h
    obtain ⟨tid, -, rfl⟩ := Option.map_eq_some_iff.1 h
    rw [Nat.zero_add]
  · cases h

/-- The retries of a bulk retry as `retry_task_action` answers them. -/
def singles (py : Interp) (w : World) : Single := fun i call => (single_retry py w i call).1

theorem counted_iff (py : Interp) (w : World) {req : Request} {i : Nat} {x : Call × CommandResult}
    (h : (made (singles py w) req)[i]? = some x) :
    (CountsTimeout x ↔ w.timing i ≠ .inTime) ↔
      (w.timing i = .inTime → ¬ RetryRaisesTimeout py (w.app i) (w.now i) (retry_request x.1)) := by
  have hone := retry_honest_iff py (w.app i) (w.timing i) (w.now i) (retry_request x.1)
  rw [countsTimeout_iff, made_single h, singles, single_retry, ← hone, and_iff_right]
  exact ⟨none, rfl⟩

end BulkRetry

/-! ## All three -/

/-- Calls are reported as they are exactly where no call in time raises an
exception that a wait alters: by `offload`, of any call; and where it raises none
that passes for a timeout, by a retry and by the breaker in every retry that a
bulk retry makes. Such an exception before `send_task` never is a determinate
failure. -/
theorem timeouts_honest_iff (py : Interp) :
    (∀ {σ α : Type} (t : Timing) (fn : EStateM BaseExn σ α) (s : σ),
      Honest t fn s ↔ (t = .inTime → ¬ ∃ e s', fn s = .error e s' ∧ Altered e)) ∧
    (∀ app timing now req, ((Retry.retry_task_action py app timing now req).1.indeterminate = true ↔
        (∃ eta_dt, Retry.eta_from_timestamp py now req.eta = .ok eta_dt) ∧ timing ≠ .inTime) ↔
      (timing = .inTime → ¬ RetryRaisesTimeout py app now req)) ∧
    (∀ w req, (∀ i x, (BulkRetry.made (singles py w) req)[i]? = some x →
        (CountsTimeout x ↔ w.timing i ≠ .inTime)) ↔
      ∀ i x, (BulkRetry.made (singles py w) req)[i]? = some x →
        w.timing i = .inTime → ¬ RetryRaisesTimeout py (w.app i) (w.now i) (BulkRetry.retry_request x.1)) ∧
    (∀ app now req eta_dt e, Retry.eta_from_timestamp py now req.eta = .ok eta_dt →
      Retry.signature py app req eta_dt = .error e → PassesForTimeout e →
        (Retry.retry_task_action py app .inTime now req).1.indeterminate = true ∧
          (Retry.retry_task_action py app .inTime now req).2 = []) := by
  refine ⟨honest_iff, retry_honest_iff py, ?_, ?_⟩
  · intro w req
    exact forall_congr' fun i => forall_congr' fun x => forall_congr' fun h => counted_iff py w h
  · intro app now req eta_dt e heta hsig he
    exact retry_timeout_before_send heta hsig he

/-- A result backend whose socket times out at once: nothing is sent, nothing
outlives its bound, and three such tasks break the circuit. -/
theorem socket_timeout_passes_for_outlived :
    let app : Retry.App := ⟨.ok ⟨.ok ⟨.ok (.str "redis")⟩⟩, fun _ => .error ⟨.TimeoutError, "timeout", "timed out"⟩,
      fun _ => .ok ⟨.ok (.str "new"), .ok .none⟩⟩
    let py : Interp := .plain
    let w : BulkRetry.World := ⟨fun _ => app, fun _ => .inTime, fun _ => 0⟩
    let answer := Retry.retry_task_action py app .inTime 0 ⟨"t1", some "app.add", none, none, none, .none⟩
    let bulk := BulkRetry.bulk_retry py w [("task_ids", .list [.str "a", .str "b", .str "c", .str "d"])] 1000
    answer.1.indeterminate = true ∧ answer.2 = [] ∧
      bulk.1.field "circuit_broken" = .bool true ∧ bulk.1.field "skipped" = .int 1 := by
  decide +kernel

end Z4jCelery.Actions.Timeouts
