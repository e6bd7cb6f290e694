import Z4jCelery.Actions.Commands.Planned
import Mathlib.Data.Fin.VecNotation
/-!
# What the answers say

A command that makes one call at most asks the broker at most once, whatever
shares the pool with it. Its answer, if it is not marked indeterminate, says what
became of it, for good (`answers_truthful`): also where it is answered at once,
or before its thread ends.
-/

namespace Z4jCelery.Actions.Commands

open Py Z4jCelery.Core Offload Lib
open Programs (Program Job)

/-! ## Answers that can be told apart -/

/-- The answers of a command can be told apart: a success, a failure, and a
timeout. -/
structure Marked (c : Offloaded) : Prop where
  succeed : ∀ call, c.prepare = .ok call → ∀ v, (call.succeed v).status = .success
  fail : ∀ e, (c.fail e).status = .failed
  timeout : (c.fail offloadTimeoutError).indeterminate = true

theorem failure_status {timeout : CommandResult} {other : Exn → CommandResult} (ht : timeout.status = .failed)
    (ho : ∀ e, (other e).status = .failed) (exc : Exn) : (failure timeout other exc).status = .failed := by
  rw [failure]
  split
  · exact ht
  · exact ho exc

theorem submit_marked (app : App) (r : Submit) : Marked (submit app r) := by
  refine ⟨fun call hcall v => ?_, failure_status rfl fun _ => rfl, rfl⟩
  obtain ⟨m, -, hcall⟩ := except_bind_eq_ok.1 hcall
  obtain ⟨tasks, -, hcall⟩ := except_bind_eq_ok.1 hcall
  split at hcall <;>
  · obtain rfl := Except.ok.inj hcall
    rfl

theorem retry_marked (py : Interp) (app : App) (r : Retry.Request) (eta_dt : Option Int) :
    Marked (retry py app r eta_dt) := by
  refine ⟨fun call hcall v => ?_, Retry.retry_failure_status, rfl⟩
  cases hsig : Retry.signature py app.retry r eta_dt with
  | error e =>
    rw [retry, hsig] at hcall
    cases hcall
  | ok publish =>
    rw [retry, hsig] at hcall
    obtain rfl := Except.ok.inj hcall
    rfl

/-- So are those of a command that has only its call to make. -/
theorem marked_of_ok {call : Prepared} {fail : Exn → CommandResult} (hs : ∀ v, (call.succeed v).status = .success)
    (hf : ∀ e, (fail e).status = .failed) (ht : (fail offloadTimeoutError).indeterminate = true) :
    Marked ⟨.ok call, fail⟩ :=
  ⟨fun _ hcall v => Except.ok.inj hcall ▸ hs v, hf, ht⟩

theorem start_marked {py : Interp} {app : App} {now : Int} {c : Command} {o : Offloaded}
    (h : c.start py app now = .ok o) : Marked o := by
  cases c with
  | submit_task r => exact Except.ok.inj h ▸ submit_marked app r
  | retry_task r =>
    rw [Command.start] at h
    split at h
    · cases h
    · exact Except.ok.inj h ▸ retry_marked py app r _
  | cancel_task task_id =>
    rw [Command.start] at h
    split at h
    · cases h
    · exact Except.ok.inj h ▸ marked_of_ok (fun _ => rfl) (failure_status rfl fun _ => rfl) rfl
  | restart_worker worker_name =>
    rw [Command.start] at h
    split at h
    · cases h
    · exact Except.ok.inj h ▸ marked_of_ok (fun _ => rfl) (failure_status rfl fun _ => rfl) rfl
  | rate_limit task_name rate worker_name =>
    rw [Command.start] at h
    split at h
    · cases h
    split at h
    · cases h
    split at h
    · cases h
    · exact Except.ok.inj h ▸ marked_of_ok (fun _ => rfl) (failure_status rfl fun _ => rfl) rfl

/-- What is answered at once is a failure. -/
theorem start_failed {py : Interp} {app : App} {now : Int} {c : Command} {r : CommandResult}
    (h : c.start py app now = .error r) : r.status = .failed := by
  cases c with
  | submit_task r => cases h
  | retry_task r =>
    rw [Command.start] at h
    split at h
    · exact Except.error.inj h ▸ rfl
    · cases h
  | cancel_task task_id =>
    rw [Command.start] at h
    split at h
    · exact Except.error.inj h ▸ rfl
    · cases h
  | restart_worker worker_name =>
    rw [Command.start] at h
    split at h
    · exact Except.error.inj h ▸ rfl
    · cases h
  | rate_limit task_name rate worker_name =>
    rw [Command.start] at h
    split at h
    · exact Except.error.inj h ▸ rfl
    split at h
    · exact Except.error.inj h ▸ rfl
    split at h
    · obtain rfl := Except.error.inj h
      rw [RateLimit.broadcast_failure]
      split <;> rfl
    · cases h

/-! ## A command on its own -/

section Alone
variable {py : Interp} {app : App} {now : Int} {timing : Timing} {c : Command} {o : Offloaded}

/-- An answer that says success or a determinate failure is the thread's own. -/
theorem perform_determinate (h : c.start py app now = .ok o)
    (hdet : (perform py app now timing c).1.status = .success ∨ (perform py app now timing c).1.indeterminate = false) :
    perform py app now timing c = (o.answer (Calls.answered (ending o)), requested o) := by
  have hmarked := start_marked h
  have halone := thread_eq_record (fun op : Op => op) o
  obtain ⟨hout, hfin⟩ := Programs.offload_record (fun op : Op => op) ending requested timing o []
  rw [perform, h] at hdet ⊢
  simp only [halone, hout, hfin, List.nil_append, List.map_id'] at hdet ⊢
  cases timing with
  | inTime => rfl
  | outlives runs =>
    -- the wait expired, and the answer says so
    have hexpired : Calls.report (.outlives runs) (ending o) = .error offloadTimeoutError := rfl
    rw [hexpired] at hdet
    have hstatus : (o.answer (.error offloadTimeoutError)).status = .failed := hmarked.fail _
    have hind : (o.answer (.error offloadTimeoutError)).indeterminate = true := hmarked.timeout
    rcases hdet with hdet | hdet
    · rw [hstatus] at hdet
      cases hdet
    · rw [hind] at hdet
      cases hdet

/-- A success was asked for and granted; a failure that is not marked
indeterminate was asked for and raised, or nothing is planned to be asked. -/
theorem perform_truthful {a : CommandResult} {ops : List Op} (h : perform py app now timing c = (a, ops)) :
    (a.status = .success → ∃ o call v, c.start py app now = .ok o ∧ o.prepare = .ok call ∧ call.reply = .ok v ∧
      a = call.succeed v ∧ call.op ∈ ops) ∧
    (a.status = .failed → a.indeterminate = false →
      (∃ o call e, c.start py app now = .ok o ∧ o.prepare = .ok call ∧ call.reply = .error e ∧ call.op ∈ ops) ∨
        (c.start py app now).toOption.toList.flatMap requested = []) := by
  have hdiffer : Status.failed ≠ .success := by decide
  cases hstart : c.start py app now with
  | error r =>
    have hfailed := start_failed hstart
    rw [perform, hstart] at h
    obtain ⟨rfl, rfl⟩ := Prod.mk.inj h
    exact ⟨fun hsuccess => absurd (hfailed.symm.trans hsuccess) hdiffer, fun _ _ => .inr rfl⟩
  | ok o =>
    have hmarked := start_marked hstart
    have hown : a.status = .success ∨ a.indeterminate = false →
        (a, ops) = (o.answer (Calls.answered (ending o)), requested o) := by
      intro hdet
      rw [← h]
      exact perform_determinate hstart (by rw [h]; exact hdet)
    have hrequested : ∀ {call}, o.prepare = .ok call → call.op ∈ requested o := by
      intro call hcall
      simp [requested, hcall, Except.toOption]
    constructor
    · intro hsuccess
      obtain ⟨rfl, rfl⟩ := Prod.mk.inj (hown (.inl hsuccess))
      cases hprepare : o.prepare with
      | error e =>
        rw [ending, hprepare] at hsuccess
        exact absurd ((hmarked.fail _).symm.trans hsuccess) hdiffer
      | ok call =>
        cases hreply : call.reply with
        | error e =>
          simp only [ending, hprepare, hreply] at hsuccess
          exact absurd ((hmarked.fail _).symm.trans hsuccess) hdiffer
        | ok v =>
          refine ⟨o, call, v, rfl, hprepare, hreply, ?_, hrequested hprepare⟩
          simp only [ending, hprepare, hreply]
          rfl
    · intro hfailed hdet
      obtain ⟨rfl, rfl⟩ := Prod.mk.inj (hown (.inr hdet))
      cases hprepare : o.prepare with
      | error e =>
        right
        simp [Except.toOption, requested, hprepare]
      | ok call =>
        left
        cases hreply : call.reply with
        | error e => exact ⟨o, call, e, rfl, hprepare, hreply, hrequested hprepare⟩
        | ok v =>
          simp only [ending, hprepare, hreply] at hfailed
          exact absurd (hfailed.symm.trans (hmarked.succeed call hprepare v)) hdiffer

end Alone

/-! ## Commands on the pool -/

section Pool
variable {P : Type} [DecidableEq P] {py : Interp} {requests : P → Request} {app : P → Nat → App} {now : P → Nat → Int}
  {s : Programs.State P (List (P × Op)) CommandResult} {p : P} {c : Command}

/-- What a command has asked the broker at any point. -/
def asked (s : Programs.State P (List (P × Op)) CommandResult) (p : P) : List Op :=
  (s.calls.world.filter fun x => x.1 = p).map Prod.snd

theorem mem_asked {op : Op} : op ∈ asked s p ↔ (p, op) ∈ s.calls.world := by
  simp [asked]

theorem asked_command {es : List (Calls.Event (Job P CommandResult))}
    (h : run (Programs.step on_pool (programs py requests app now)) es (Programs.init []) = some s)
    (hp : requests p = .command c) :
    (asked s p).Subperm ((c.start py (app p 0) (now p 0)).toOption.toList.flatMap requested) := by
  rw [on_pool_eq] at h
  have hplanned := Programs.asked_planned (Programs.run_inv h) (program_follows py (app p) (now p) (requests p))
  rwa [hp] at hplanned

/-- Whatever commands share the pool, no command of one call asks the broker
twice. A success was asked for and granted. A failure that is not marked
indeterminate was asked for and raised, or is never asked for in any later run;
so it is with one that is answered at once. -/
theorem answers_truthful {es : List (Calls.Event (Job P CommandResult))}
    (h : run (Programs.step on_pool (programs py requests app now)) es (Programs.init []) = some s)
    (hp : requests p = .command c) : (asked s p).length ≤ 1 ∧
      ∀ a, ((programs py requests app now p).after (s.heard p)).answer = some a →
        (a.status = .success → ∃ o call v, c.start py (app p 0) (now p 0) = .ok o ∧ o.prepare = .ok call ∧
          call.reply = .ok v ∧ a = call.succeed v ∧ (p, call.op) ∈ s.calls.world) ∧
        (a.status = .failed → a.indeterminate = false →
          (∃ o call e, c.start py (app p 0) (now p 0) = .ok o ∧ o.prepare = .ok call ∧ call.reply = .error e ∧
            (p, call.op) ∈ s.calls.world) ∨
          ∀ es' s', run (Programs.step on_pool (programs py requests app now)) es' s = some s' →
            ∀ op, (p, op) ∉ s'.calls.world) := by
  have hplanned := asked_command h hp
  refine ⟨(hplanned.length_le.trans (asked_length _)).trans Option.length_toList_le, fun a ha => ?_⟩
  obtain ⟨ops, hperform, hperm⟩ := answered_alone h ha
  rw [hp] at hperform
  have halone : perform py (app p 0) (now p 0) (s.timing p 0) c = (a, ops) := hperform
  obtain ⟨hgranted, hraised⟩ := perform_truthful halone
  constructor
  · intro hsuccess
    obtain ⟨o, call, v, hstart, hprepare, hreply, hanswer, hop⟩ := hgranted hsuccess
    exact ⟨o, call, v, hstart, hprepare, hreply, hanswer, mem_asked.1 (hperm.mem_iff.2 hop)⟩
  · intro hfailed hdet
    rcases hraised hfailed hdet with ⟨o, call, e, hstart, hprepare, hreply, hop⟩ | hnone
    · exact .inl ⟨o, call, e, hstart, hprepare, hreply, mem_asked.1 (hperm.mem_iff.2 hop)⟩
    · -- what is not planned is not asked for later
      refine .inr fun es' s' h' op hop => ?_
      have hlater := @asked_command P _ py requests app now s' p c (es ++ es') (by rw [run_append, h]; exact h') hp
      rw [hnone] at hlater
      exact List.not_mem_nil (hlater.subset (mem_asked.2 hop))

/-- Of two tasks one is cancelled, and the other's call raises; a command without a
task name is answered at once. -/
theorem answers_truthful_cancel :
    let raised : Exn := ⟨.OSError, "OSError", "connection refused"⟩
    let revoke (task_id : String) (_ : Bool) (_ : String) : Except Exn Unit := if task_id = "a" then .ok () else .error raised
    let app : App := ⟨.ok none, fun _ => .error raised, fun _ => .error raised, ⟨.error raised, fun _ => .error raised,
      fun _ => .error raised⟩, .ok revoke, .error raised, ⟨.error raised⟩⟩
    let requests : Fin 3 → Request := ![.command (.cancel_task "a"), .command (.cancel_task "b"),
      .command (.rate_limit "" "5/m" none)]
    let step := Programs.step on_pool (programs .plain requests (fun _ _ => app) fun _ _ => 0)
    let answer := fun (s : Programs.State (Fin 3) (List (Fin 3 × Op)) CommandResult) (p : Fin 3) =>
      ((programs .plain requests (fun _ _ => app) (fun _ _ => 0) p).after (s.heard p)).answer
    ∃ s, run step [.submit (0, []), .start, .submit (1, []), .start, .act (1, []), .act (0, []), .finish (0, []),
        .answer (0, []), .finish (1, []), .answer (1, [])] (Programs.init []) = some s ∧
      s.calls.world = [(1, .revoke "b" true "SIGTERM"), (0, .revoke "a" true "SIGTERM")] ∧
      ([0, 1, 2].map fun p => (answer s p).map (·.status)) = [some .success, some .failed, some .failed] ∧
      ∀ es' s', run step es' s = some s' → ∀ op, (2, op) ∉ s'.calls.world := by
  intro raised revoke app requests step answer
  have hend : (run step [.submit (0, []), .start, .submit (1, []), .start, .act (1, []), .act (0, []), .finish (0, []),
        .answer (0, []), .finish (1, []), .answer (1, [])] (Programs.init [])).map (fun s => (s.calls.world,
      [0, 1, 2].map fun p => (answer s p).map (·.status))) = some ([(1, .revoke "b" true "SIGTERM"),
        (0, .revoke "a" true "SIGTERM")], [some .success, some .failed, some .failed]) := by
    decide +kernel
  obtain ⟨s, hs, hend⟩ := Option.map_eq_some_iff.1 hend
  obtain ⟨hworld, hstatus⟩ := Prod.mk.inj hend
  refine ⟨s, hs, hworld, hstatus, ?_⟩
  have hmissing : Command.start .plain app 0 (.rate_limit "" "5/m" none) = .error RateLimit.missingTask := rfl
  obtain ⟨-, hanswers⟩ := answers_truthful (p := 2) hs rfl
  have hdone : programs .plain requests (fun _ _ => app) (fun _ _ => 0) 2 = .done RateLimit.missingTask := rfl
  rw [hdone, Program.after_done] at hanswers
  rcases (hanswers RateLimit.missingTask rfl).2 rfl rfl with ⟨o, -, -, ho, -⟩ | hnever
  · rw [hmissing] at ho
    cases ho
  · exact hnever

end Pool

end Z4jCelery.Actions.Commands
