import Z4jCelery.Offload.Calls.Stalled
/-!
# No call waits for another

A call takes five events at most: it is made, starts, takes effect, its thread
ends, and its wait does (`length_le`). While a call is not settled the pool can
go on without any wait expiring (`halted`).
-/

namespace Z4jCelery.Offload.Calls

open Py Lib

variable {J σ α : Type} [DecidableEq J] {fn : J → PyM σ α} {w : σ} {s s' : State J σ α} {e : Event J}

/-! ## How long a run is -/

/-- All that happened so far. -/
def State.events (s : State J σ α) : Nat :=
  s.pool.submitted.length + s.pool.started.length + s.results.length + s.pool.ended.length + s.returned.length +
    s.expired.length

theorem events_step (h : step fn s e = some s') : s'.events = s.events + 1 := by
  unfold State.events
  cases step_cases h with
  | submit hp =>
    obtain ⟨-, rfl⟩ := Pool.submit_cases hp
    simp only [List.length_append, List.length_singleton]
    omega
  | start hp =>
    obtain ⟨j, -, -, -, -, -, hst, hsub, hend, -⟩ := Pool.start_cases hp
    simp only [hst, hsub, hend, List.length_append, List.length_singleton]
    omega
  | act hrun hnot =>
    simp only [List.length_append, List.length_singleton]
    omega
  | finish hj hp =>
    obtain ⟨-, -, hend, -, hsub, hst, -⟩ := Pool.finish_cases hp
    simp only [hend, hsub, hst, List.length_append, List.length_singleton]
    omega
  | answer hend hnot hr =>
    simp only [List.length_append, List.length_singleton]
    omega
  | expire hj hnot =>
    simp only [Pool.cancel_submitted, Pool.cancel_started, Pool.cancel_ended, List.length_append, List.length_singleton]
    omega

omit [DecidableEq J] in
theorem Inv.settled_submitted (hi : Inv fn w s) {j : J} (hj : j ∈ s.settled) : j ∈ s.pool.submitted := by
  rcases List.mem_append.1 hj with hj | hj
  · have hacted := hi.returned_acted hj
    exact hi.accounted.submitted_of_started (hi.acted_started j hacted)
  · exact (hi.expired_submitted j hj).1

omit [DecidableEq J] in
theorem Inv.events_le (hi : Inv fn w s) : s.events ≤ 5 * s.pool.submitted.length := by
  have hstarted : (s.pool.started ++ s.pool.waiting).length ≤ s.pool.submitted.length := hi.accounted.in_order.length_le
  have hacted : s.acted.length ≤ s.pool.started.length := (List.subperm_of_subset hi.acted_once hi.acted_started).length_le
  have hran : s.pool.started.length = (s.pool.running ++ s.pool.ended).length := hi.accounted.ran.length_eq
  have hsettled : s.settled.length ≤ s.pool.submitted.length :=
    (List.subperm_of_subset hi.settled_once fun j hj => hi.settled_submitted hj).length_le
  simp only [State.acted, State.settled, List.length_append, List.length_map] at hstarted hacted hran hsettled
  unfold State.events
  omega

theorem length_le {es : List (Event J)} (h : run (step fn) es (State.init w) = some s) :
    es.length ≤ 5 * s.pool.submitted.length := by
  have hlen := Lib.run_length (m := State.events) (fun _ _ _ => events_step) h
  have hle := (run_inv h).events_le
  omega

/-! ## What can happen next -/

/-- Only calls whose wait expired are withdrawn. -/
theorem withdrawn_step (h : step fn s e = some s') (hi : ∀ j ∈ s.pool.withdrawn, j ∈ s.expired) :
    ∀ j ∈ s'.pool.withdrawn, j ∈ s'.expired := by
  intro j hj
  cases step_cases h with
  | submit hp =>
    obtain ⟨-, rfl⟩ := Pool.submit_cases hp
    exact hi j hj
  | start hp =>
    obtain ⟨-, -, -, -, -, -, -, -, -, hwd⟩ := Pool.start_cases hp
    exact hi j (hwd ▸ hj)
  | act hrun hnot => exact hi j hj
  | finish hk hp =>
    obtain ⟨-, -, -, -, -, -, hwd⟩ := Pool.finish_cases hp
    exact hi j (hwd ▸ hj)
  | answer hend hnot hr => exact hi j hj
  | @expire k hk hnot =>
    rcases Pool.withdrawn_of_cancel hj with hj | rfl
    · exact List.mem_append_left _ (hi j hj)
    · exact List.mem_append_right _ (List.mem_singleton.2 rfl)

theorem withdrawn_run {es : List (Event J)} (h : run (step fn) es (State.init w) = some s) :
    ∀ j ∈ s.pool.withdrawn, j ∈ s.expired :=
  Lib.run_inv (I := fun s : State J σ α => ∀ j ∈ s.pool.withdrawn, j ∈ s.expired)
    (fun _ _ _ hi hs => withdrawn_step hs hi) h nofun

/-- No thread can move and no caller is answered. -/
structure Halted (fn : J → PyM σ α) (s : State J σ α) : Prop where
  start : step fn s .start = none
  act : ∀ j, step fn s (.act j) = none
  finish : ∀ j, step fn s (.finish j) = none
  answer : ∀ j, step fn s (.answer j) = none

/-- A call that a thread runs takes effect, or has and frees the thread. -/
theorem Halted.running_nil (h : Halted fn s) : s.pool.running = [] := by
  apply List.eq_nil_iff_forall_not_mem.2
  intro j hj
  by_cases hacted : j ∈ s.acted
  · have hfinish := h.finish j
    rw [step, if_pos hacted, Pool.finish, if_pos hj] at hfinish
    cases hfinish
  · have hact := h.act j
    rw [step, if_pos ⟨hj, hacted⟩] at hact
    cases hact

theorem Halted.waiting_nil (h : Halted fn s) : s.pool.waiting = [] := by
  have hstart := h.start
  rw [step, Pool.start] at hstart
  split at hstart
  · assumption
  · -- a thread is free
    have hfree : s.pool.running.length < MAX_WORKERS := h.running_nil ▸ Nat.succ_pos 7
    rw [dif_pos hfree] at hstart
    cases hstart

theorem Halted.settled (h : Halted fn s) (hi : Inv fn w s) (hwithdrawn : ∀ j ∈ s.pool.withdrawn, j ∈ s.expired) {j : J}
    (hj : j ∈ s.pool.submitted) : j ∈ s.settled := by
  by_cases hst : j ∈ s.pool.started
  · have hend : j ∈ s.pool.ended := by
      rcases List.mem_append.1 (hi.accounted.ran.mem_iff.1 hst) with hrun | hend
      · exact absurd (h.running_nil ▸ hrun) List.not_mem_nil
      · exact hend
    by_contra hnot
    have hanswer := h.answer j
    rw [step, if_pos ⟨hend, hnot⟩, Option.map_eq_none_iff, List.find?_eq_none] at hanswer
    obtain ⟨x, hx, hxj⟩ := List.mem_map.1 (hi.ended_acted j hend)
    exact hanswer x hx (decide_eq_true hxj)
  · rcases hi.accounted.not_started hj hst with hwait | hwd
    · exact absurd (h.waiting_nil ▸ hwait) List.not_mem_nil
    · exact List.mem_append_right _ (hwithdrawn j hwd)

/-- The pool stops only when every call that was made is settled. -/
theorem halted {es : List (Event J)} (h : run (step fn) es (State.init w) = some s) (hh : Halted fn s) :
    s.pool.running = [] ∧ s.pool.waiting = [] ∧ ∀ j ∈ s.pool.submitted, j ∈ s.settled :=
  ⟨hh.running_nil, hh.waiting_nil, fun _ hj => hh.settled (run_inv h) (withdrawn_run h) hj⟩

end Z4jCelery.Offload.Calls
