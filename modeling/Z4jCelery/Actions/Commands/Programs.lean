import Z4jCelery.Actions.Commands
import Z4jCelery.Actions.BulkRetry.Theorems
import Z4jCelery.Offload.Programs.Alone
/-!
# All commands on one pool

A command is a program of offloaded calls: a bulk retry makes one for each id,
the others one at most. Whatever shares the pool, a command answers, and asks the
broker, what its action does on its own (`on_pool_alone`). On a pool whose
threads hang a bulk retry gives up after three ids (`bulk_retry_gives_up`).
-/

namespace Z4jCelery.Actions.Commands

open Py Z4jCelery.Core Offload Lib BulkRetry
open Programs (Program Job)

/-! ## Commands as programs -/

abbrev CommandProgram : Type := Program Offloaded CommandResult CommandResult

/-- What follows an action: at once on its answer, or after its call. -/
def attempt (started : Except CommandResult Offloaded) (k : CommandResult → CommandProgram) : CommandProgram :=
  match started with
  | .error r => k r
  | .ok o => .call o fun r => k (o.answer r)

def Command.program (py : Interp) (app : App) (now : Int) (c : Command) : CommandProgram :=
  attempt (c.start py app now) .done

section Bulk
variable (start : Nat → Call → Except CommandResult Offloaded) (req : BulkRetry.Request)

/-- `for tid in batch:`. -/
def retry_batch : List String → Loop → (Loop → CommandProgram) → CommandProgram
  | [], s, k => k s
  | tid :: tids, s, k =>
    let call := call_for req tid
    attempt (start s.processed call) fun single =>
      let s := BulkRetry.record s call single
      if circuit_break_after ≤ s.consecutive_timeouts then k { s with broker_unhealthy := true }
      else retry_batch tids s k

/-- `for batch_start in starts:`. -/
def retry_batches (ids : List String) : List Nat → Loop → (Loop → CommandProgram) → CommandProgram
  | [], s, k => k s
  | batch_start :: starts, s, k =>
    if s.broker_unhealthy then k s
    else retry_batch start req ((ids.drop batch_start).take 100) s fun s => retry_batches ids starts s k

/-- The summary of a bulk retry whose loop has ended. -/
def loop_summary (s : Loop) : Summary :=
  { filter := req.filter
    requested := (capped_ids req).length
    succeeded := s.new_task_ids.length
    failed := s.failures.length
    skipped := (capped_ids req).length - s.processed
    circuit_broken := s.broker_unhealthy
    capped := capped req
    new_task_ids := s.new_task_ids
    failures := s.failures }

def bulk_program : CommandProgram :=
  if ids req = [] then .done noTaskIds
  else retry_batches start req (capped_ids req) (batch_starts (capped_ids req).length) Loop.start fun s =>
    .done (loop_summary req s).result

end Bulk

/-- The `i`-th retry of a bulk retry. -/
def start_retry (py : Interp) (app : Nat → App) (now : Nat → Int) (i : Nat) (call : Call) : Except CommandResult Offloaded :=
  Command.start py (app i) (now i) (.retry_task (retry_request call))

/-- The world that the retries of a bulk retry meet. -/
def retry_world (app : Nat → App) (now : Nat → Int) (timing : Nat → Timing) : World :=
  ⟨fun i => (app i).retry, timing, now⟩

inductive Request where
  | command (c : Command)
  | bulk_retry (filter : List (String × Val)) (max : Int)

/-- A bulk retry meets an app and a time of its own for each id. -/
def Request.program (py : Interp) (app : Nat → App) (now : Nat → Int) : Request → CommandProgram
  | .command c => c.program py (app 0) (now 0)
  | .bulk_retry filter max =>
    bulk_program (start_retry py app now) (bulk_request py filter max)

/-- A command on its own: its answer, and its broker calls. -/
def Request.perform (py : Interp) (app : Nat → App) (now : Nat → Int) (timing : Nat → Timing) :
    Request → CommandResult × List Op
  | .command c => Commands.perform py (app 0) (now 0) (timing 0) c
  | .bulk_retry filter max =>
    let w := retry_world app now timing
    ((BulkRetry.bulk_retry py w filter max).1, (publishes py w filter max).map .resend)

/-! ## Programs on their own -/

/-- What a command's thread ends with. -/
def ending (c : Offloaded) : Except Exn CommandResult :=
  match c.prepare with
  | .error e => .error e
  | .ok call => call.reply.map call.succeed

/-- What it asks the broker. -/
def requested (c : Offloaded) : List Op := (c.prepare.toOption.map Prepared.op).toList

theorem thread_eq_record {τ : Type} (tag : Op → τ) (c : Offloaded) :
    c.thread (fun op ops => ops ++ [tag op]) = Programs.record tag ending requested c := by
  funext w
  rw [thread_apply, Programs.record, bind_ok (modify_apply _ w), ending, requested]
  cases c.prepare with
  | error e => simp [Except.toOption]
  | ok call =>
    obtain ⟨op, reply, succeed⟩ := call
    cases reply <;> rfl

/-- What a command's call does does not depend on what was asked before. -/
theorem offload_thread (t : Timing) (o : Offloaded) (w : List Op) :
    outcome (offload t (Programs.record id ending requested o) w) =
        outcome (offload t (o.thread fun op ops => ops ++ [op]) []) ∧
      final (offload t (Programs.record id ending requested o) w) =
        w ++ final (offload t (o.thread fun op ops => ops ++ [op]) []) := by
  have hone := thread_eq_record (fun op : Op => op) o
  obtain ⟨hout, hfin⟩ := Programs.offload_record id ending requested t o w
  obtain ⟨hout', hfin'⟩ := Programs.offload_record (fun op : Op => op) ending requested t o []
  rw [hone, hout, hfin, hout', hfin', List.nil_append]
  exact ⟨rfl, rfl⟩

section Alone
variable {py : Interp} {app : Nat → App} {now : Nat → Int} {timing : Nat → Timing}

theorem command_alone (c : Command) :
    (c.program py (app 0) (now 0)).alone (Programs.record id ending requested) timing 0 [] =
      Commands.perform py (app 0) (now 0) (timing 0) c := by
  rw [Command.program, Commands.perform]
  cases c.start py (app 0) (now 0) with
  | error r => rfl
  | ok o =>
    obtain ⟨hout, hfin⟩ := offload_thread (timing 0) o []
    simp only [attempt, Program.alone, hout, hfin, List.nil_append]

/-- What the retries of these calls ask. -/
def sent (py : Interp) (w : World) (calls : List Call) : List Op :=
  (calls.mapIdx fun i call => (single_retry py w i call).2).flatten.map .resend

/-- A retry is one call. -/
theorem attempt_alone (i : Nat) (call : Call) (k : CommandResult → CommandProgram) (ops : List Op) :
    (attempt (start_retry py app now i call) k).alone (Programs.record id ending requested) timing i ops =
      (k (single_retry py (retry_world app now timing) i call).1).alone (Programs.record id ending requested) timing (i + 1)
        (ops ++ (single_retry py (retry_world app now timing) i call).2.map .resend) := by
  have hretry := perform_retry_task py (app i) (now i) (timing i) (retry_request call)
  obtain ⟨hanswer, hops⟩ := Prod.mk.inj hretry
  obtain ⟨hout, hfin⟩ := offload_thread (timing i) (retry py (app i) (retry_request call) none) ops
  show Program.alone _ _ _ (k (Offloaded.answer _ _)) _ = _
  rw [hout, hfin]
  exact congrArg₂ (fun a w => (k a).alone (Programs.record id ending requested) timing (i + 1) (ops ++ w)) hanswer hops

theorem sent_snoc (w : World) (calls : List Call) (call : Call) :
    sent py w (calls ++ [call]) = sent py w calls ++ (single_retry py w calls.length call).2.map .resend := by
  rw [sent, List.mapIdx_concat, List.flatten_append, List.map_append]
  simp [sent]

variable (py app now timing) in
/-- The loop over a batch, as far as it goes. -/
theorem retry_batch_alone (req : BulkRetry.Request) (k : Loop → CommandProgram) (tids : List String) (s : Loop)
    (hs : s.calls.length = s.processed) :
    let w := retry_world app now timing
    let s' := run_batch (fun i call => (single_retry py w i call).1) req tids s
    (retry_batch (start_retry py app now) req tids s k).alone (Programs.record id ending requested) timing s.processed
        (sent py w s.calls) =
      (k s').alone (Programs.record id ending requested) timing s'.processed (sent py w s'.calls) ∧
      s'.calls.length = s'.processed := by
  intro w
  induction tids generalizing s with
  | nil => exact ⟨rfl, hs⟩
  | cons tid tids ih =>
    have hrecord : (BulkRetry.record s (call_for req tid) (single_retry py w s.processed (call_for req tid)).1).calls.length =
        (BulkRetry.record s (call_for req tid) (single_retry py w s.processed (call_for req tid)).1).processed := by
      rw [BulkRetry.record, List.length_append, hs]
      rfl
    have hsent : sent py w s.calls ++ (single_retry py w s.processed (call_for req tid)).2.map .resend =
        sent py w (BulkRetry.record s (call_for req tid) (single_retry py w s.processed (call_for req tid)).1).calls := by
      rw [BulkRetry.record, sent_snoc, hs]
    rw [retry_batch, attempt_alone, hsent]
    simp only [run_batch]
    split
    · exact ⟨rfl, hrecord⟩
    · exact ih _ hrecord

/-- The loop over the batches. -/
theorem retry_batches_alone (req : BulkRetry.Request) (k : Loop → CommandProgram) (ids : List String) (starts : List Nat)
    (s : Loop) (hs : s.calls.length = s.processed) :
    let w := retry_world app now timing
    let s' := run_batches (fun i call => (single_retry py w i call).1) req ids starts s
    (retry_batches (start_retry py app now) req ids starts s k).alone (Programs.record id ending requested) timing
        s.processed (sent py w s.calls) =
      (k s').alone (Programs.record id ending requested) timing s'.processed (sent py w s'.calls) := by
  intro w
  induction starts generalizing s with
  | nil => rfl
  | cons batch_start starts ih =>
    simp only [retry_batches, run_batches]
    split
    · rfl
    · obtain ⟨hbatch, hlength⟩ := retry_batch_alone py app now timing req
        (fun s => retry_batches (start_retry py app now) req ids starts s k) ((ids.drop batch_start).take 100) s hs
      exact hbatch.trans (ih _ hlength)

theorem bulk_alone (filter : List (String × Val)) (max : Int) :
    ((Request.bulk_retry filter max).program py app now).alone (Programs.record id ending requested) timing 0 [] =
      (Request.bulk_retry filter max).perform py app now timing := by
  rw [Request.program, bulk_program, Request.perform, publishes, BulkRetry.bulk_retry, bulk_retry_action]
  split
  · rfl
  · exact retry_batches_alone (bulk_request py filter max) (fun s => .done (loop_summary (bulk_request py filter max) s).result)
      (capped_ids (bulk_request py filter max)) (batch_starts (capped_ids (bulk_request py filter max)).length) Loop.start rfl

theorem program_alone (r : Request) :
    (r.program py app now).alone (Programs.record id ending requested) timing 0 [] = r.perform py app now timing := by
  cases r with
  | command c => exact command_alone c
  | bulk_retry filter max => exact bulk_alone filter max

end Alone

/-! ## Commands on the pool -/

section Pool
variable {P : Type} [DecidableEq P] {py : Interp} {requests : P → Request} {app : P → Nat → App} {now : P → Nat → Int}
  {s s' : Programs.State P (List (P × Op)) CommandResult}

/-- The thread of each command's calls; the outside world is what the broker was
asked, and by which command. -/
def on_pool (p : P) (o : Offloaded) : PyM (List (P × Op)) CommandResult := o.thread fun op ops => ops ++ [(p, op)]

def programs (py : Interp) (requests : P → Request) (app : P → Nat → App) (now : P → Nat → Int) (p : P) : CommandProgram :=
  (requests p).program py (app p) (now p)

omit [DecidableEq P] in
theorem on_pool_eq : (on_pool : P → Offloaded → PyM (List (P × Op)) CommandResult) =
    fun p => Programs.record (p, ·) ending requested := by
  funext p o
  exact thread_eq_record (p, ·) o

/-- The answer and the broker calls of a command that was answered. -/
theorem answered_alone {es : List (Calls.Event (Job P CommandResult))}
    (h : run (Programs.step on_pool (programs py requests app now)) es (Programs.init []) = some s) {p : P}
    {a : CommandResult} (hanswer : ((programs py requests app now p).after (s.heard p)).answer = some a) :
    ∃ ops, (requests p).perform py (app p) (now p) (s.timing p) = (a, ops) ∧
      ((s.calls.world.filter fun x => x.1 = p).map Prod.snd).Perm ops := by
  rw [on_pool_eq] at h
  obtain ⟨ops, halone, hperm⟩ := Programs.run_alone h hanswer
  exact ⟨ops, (program_alone (requests p)).symm.trans halone, hperm⟩

/-- Whatever commands share the pool, at any point of any run: a command that has
been answered was answered what its action answers alone, with some timings, and
has asked the broker what its action asks alone. -/
theorem on_pool_alone {es : List (Calls.Event (Job P CommandResult))}
    (h : run (Programs.step on_pool (programs py requests app now)) es (Programs.init []) = some s) {p : P}
    {a : CommandResult} (hanswer : ((programs py requests app now p).after (s.heard p)).answer = some a) :
    let alone := (requests p).perform py (app p) (now p) (s.timing p)
    a = alone.1 ∧ ((s.calls.world.filter fun x => x.1 = p).map Prod.snd).Perm alone.2 := by
  obtain ⟨ops, hperform, hperm⟩ := answered_alone h hanswer
  intro alone
  rw [show alone = (a, ops) from hperform]
  exact ⟨rfl, hperm⟩

/-- A bulk retry of two tasks beside a cancellation: the first retry is answered
in time, the wait for the second expires in line. -/
theorem on_pool_alone_two :
    let raised : Exn := ⟨.OSError, "OSError", "connection refused"⟩
    let stored : Retry.AsyncResult := ⟨.ok .none, .ok .none, .ok (.list []), .ok (.dict [])⟩
    let app : App := ⟨.ok none, fun _ => .error raised, fun _ => .error raised, ⟨.error raised, fun _ => .ok stored,
      fun _ => .ok ⟨.ok (.str "new"), .ok .none⟩⟩, .ok fun _ _ _ => .ok (), .error raised, ⟨.error raised⟩⟩
    let py : Interp := .plain
    let requests : Bool → Request := fun bulk => if bulk then .bulk_retry [("task_ids", .list [.str "a", .str "b"]),
      ("task_names", .dict [("a", .str "app.add"), ("b", .str "app.add")])] 10 else .command (.cancel_task "c")
    let first : Except Exn CommandResult := .ok (Retry.retry_success "app.add" "new" none)
    ∃ s a, run (Programs.step on_pool (programs py requests (fun _ _ => app) fun _ _ => 0))
        [.submit (true, []), .submit (false, []), .start, .start, .act (false, []), .act (true, []), .finish (true, []),
          .answer (true, []), .submit (true, [first]), .expire (true, [first])] (Programs.init []) = some s ∧
      ((programs py requests (fun _ _ => app) (fun _ _ => 0) true).after (s.heard true)).answer = some a ∧
      a.field "succeeded" = .int 1 ∧ s.calls.world.map Prod.fst = [false, true] ∧
      a = ((requests true).perform py (fun _ => app) (fun _ => 0) (s.timing true)).1 := by
  intro raised stored app py requests first
  have hend : (run (Programs.step on_pool (programs py requests (fun _ _ => app) fun _ _ => 0))
      [.submit (true, []), .submit (false, []), .start, .start, .act (false, []), .act (true, []), .finish (true, []),
        .answer (true, []), .submit (true, [first]), .expire (true, [first])] (Programs.init [])).map (fun s =>
      (((programs py requests (fun _ _ => app) (fun _ _ => 0) true).after (s.heard true)).answer.map
        (·.field "succeeded"), s.calls.world.map Prod.fst)) = some (some (.int 1), [false, true]) := by
    decide +kernel
  obtain ⟨s, hs, hend⟩ := Option.map_eq_some_iff.1 hend
  obtain ⟨hanswer, hworld⟩ := Prod.mk.inj hend
  obtain ⟨a, ha, hfield⟩ := Option.map_eq_some_iff.1 hanswer
  exact ⟨s, a, hs, ha, hfield, hworld, (on_pool_alone hs ha).1⟩

end Pool

end Z4jCelery.Actions.Commands
