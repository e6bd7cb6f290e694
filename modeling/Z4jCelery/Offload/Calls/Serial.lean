import Z4jCelery.Offload.Calls
/-!
# Every run of the pool is a sequence of offloaded calls

`Inv` is what every step keeps. From it, a run does to the outside world, and
answers its callers, what `offload` does for the same calls one after the other:
in the order they took effect, and then those that never did. A call whose
caller was answered by it is in time; one that was not outlives its wait, and
runs if it took effect.
-/

namespace Z4jCelery.Offload.Calls

open Py Lib

variable {J σ α : Type} [DecidableEq J] {fn : J → PyM σ α} {w : σ} {s s' : State J σ α}

/-- The timing of a call. -/
def State.timing (s : State J σ α) (j : J) : Timing :=
  if j ∈ s.returned.map Prod.fst then .inTime else .outlives (decide (j ∈ s.acted))

/-- The calls that took effect, then the others. -/
def State.order (s : State J σ α) : List J := s.acted ++ s.pool.submitted.filter (· ∉ s.acted)

/-! ## The invariant -/

structure Inv (fn : J → PyM σ α) (w : σ) (s : State J σ α) : Prop where
  accounted : s.pool.Accounted
  performed : perform fn s.acted w = (s.results, s.world)
  acted_started : ∀ j ∈ s.acted, j ∈ s.pool.started
  acted_once : s.acted.Nodup
  ended_acted : ∀ j ∈ s.pool.ended, j ∈ s.acted
  settled_once : s.settled.Nodup
  returned_result : ∀ x ∈ s.returned, x.1 ∈ s.pool.ended ∧ ∃ r, (x.1, r) ∈ s.results ∧ x.2 = answered r
  expired_submitted : ∀ j ∈ s.expired, j ∈ s.pool.submitted ∧ j ∉ s.pool.waiting

omit [DecidableEq J] in
theorem inv_init : Inv fn w (State.init w : State J σ α) :=
  ⟨Pool.accounted_empty, rfl, nofun, List.nodup_nil, nofun, List.nodup_nil, nofun, nofun⟩

theorem Inv.submit (h : Inv fn w s) {j : J} {pool : Pool J MAX_WORKERS} (hp : s.pool.submit j = some pool) :
    Inv fn w { s with pool := pool } := by
  have hacc := h.accounted.submit hp
  obtain ⟨hj, rfl⟩ := Pool.submit_cases hp
  refine ⟨hacc, h.performed, h.acted_started, h.acted_once, h.ended_acted, h.settled_once, h.returned_result, ?_⟩
  intro k hk
  obtain ⟨hsub, hwait⟩ := h.expired_submitted k hk
  refine ⟨List.mem_append_left _ hsub, fun hmem => ?_⟩
  rcases List.mem_append.1 hmem with hmem | hmem
  · exact hwait hmem
  · exact hj (List.mem_singleton.1 hmem ▸ hsub)

omit [DecidableEq J] in
theorem Inv.start (h : Inv fn w s) {pool : Pool J MAX_WORKERS} (hp : s.pool.start = some pool) :
    Inv fn w { s with pool := pool } := by
  have hacc := h.accounted.start hp
  obtain ⟨j, waiting, hw, -, hw', -, hst', hsub', hend', -⟩ := Pool.start_cases hp
  refine ⟨hacc, h.performed, ?_, h.acted_once, ?_, h.settled_once, ?_, ?_⟩
  · intro k hk
    rw [hst']
    exact List.mem_append_left _ (h.acted_started k hk)
  · exact fun k hk => h.ended_acted k (hend' ▸ hk)
  · exact fun x hx => ⟨hend' ▸ (h.returned_result x hx).1, (h.returned_result x hx).2⟩
  · intro k hk
    obtain ⟨hsub, hwait⟩ := h.expired_submitted k hk
    refine ⟨hsub' ▸ hsub, fun hmem => hwait ?_⟩
    rw [hw]
    exact List.mem_cons_of_mem j (hw' ▸ hmem)

omit [DecidableEq J] in
theorem Inv.act (h : Inv fn w s) {j : J} (hrun : j ∈ s.pool.running) (hnot : j ∉ s.acted) :
    Inv fn w { s with world := final (fn j s.world), results := s.results ++ [(j, outcome (fn j s.world))] } := by
  have hacted : (s.results ++ [(j, outcome (fn j s.world))]).map Prod.fst = s.acted ++ [j] := List.map_append
  refine ⟨h.accounted, ?_, ?_, ?_, ?_, h.settled_once, ?_, h.expired_submitted⟩
  · rw [State.acted, hacted, perform_append, h.performed]
  · rw [State.acted, hacted]
    intro k hk
    rcases List.mem_append.1 hk with hk | hk
    · exact h.acted_started k hk
    · obtain rfl := List.mem_singleton.1 hk
      exact h.accounted.started_of_running hrun
  · rw [State.acted, hacted]
    refine List.nodup_append.2 ⟨h.acted_once, List.nodup_singleton j, fun a ha b hb => ?_⟩
    rw [List.mem_singleton.1 hb]
    rintro rfl
    exact hnot ha
  · rw [State.acted, hacted]
    exact fun k hk => List.mem_append_left _ (h.ended_acted k hk)
  · intro x hx
    obtain ⟨hend, r, hr, hx⟩ := h.returned_result x hx
    exact ⟨hend, r, List.mem_append_left _ hr, hx⟩

theorem Inv.finish (h : Inv fn w s) {j : J} {pool : Pool J MAX_WORKERS} (hj : j ∈ s.acted)
    (hp : s.pool.finish j = some pool) : Inv fn w { s with pool := pool } := by
  have hacc := h.accounted.finish hp
  obtain ⟨-, -, hend', hw', hsub', hst', -⟩ := Pool.finish_cases hp
  refine ⟨hacc, h.performed, ?_, h.acted_once, ?_, h.settled_once, ?_, ?_⟩
  · exact fun k hk => hst' ▸ h.acted_started k hk
  · intro k hk
    rw [hend'] at hk
    rcases List.mem_append.1 hk with hk | hk
    · exact h.ended_acted k hk
    · exact List.mem_singleton.1 hk ▸ hj
  · intro x hx
    obtain ⟨hend, hres⟩ := h.returned_result x hx
    exact ⟨hend' ▸ List.mem_append_left _ hend, hres⟩
  · exact fun k hk => ⟨hsub' ▸ (h.expired_submitted k hk).1, hw' ▸ (h.expired_submitted k hk).2⟩

omit [DecidableEq J] in
theorem Inv.answer (h : Inv fn w s) {j : J} {r : Except Exn α} (hend : j ∈ s.pool.ended) (hnot : j ∉ s.settled)
    (hr : (j, r) ∈ s.results) : Inv fn w { s with returned := s.returned ++ [(j, answered r)] } := by
  refine ⟨h.accounted, h.performed, h.acted_started, h.acted_once, h.ended_acted, ?_, ?_, h.expired_submitted⟩
  · show ((s.returned ++ [(j, answered r)]).map Prod.fst ++ s.expired).Nodup
    rw [List.map_append, List.append_assoc]
    have hperm : (s.returned.map Prod.fst ++ ([j] ++ s.expired)).Perm (j :: s.settled) := List.perm_middle
    exact hperm.nodup_iff.2 (List.nodup_cons.2 ⟨hnot, h.settled_once⟩)
  · intro x hx
    rcases List.mem_append.1 hx with hx | hx
    · exact h.returned_result x hx
    · obtain rfl := List.mem_singleton.1 hx
      exact ⟨hend, r, hr, rfl⟩

theorem Inv.expire (h : Inv fn w s) {j : J} (hj : j ∈ s.pool.submitted) (hnot : j ∉ s.settled) :
    Inv fn w { s with pool := s.pool.cancel j, expired := s.expired ++ [j] } := by
  have hnodup : s.pool.waiting.Nodup := (List.nodup_append.1 (List.nodup_append.1 h.accounted.placed_nodup).1).2.1
  refine ⟨h.accounted.cancel j, h.performed, ?_, h.acted_once, ?_, ?_, ?_, ?_⟩
  · exact fun k hk => Pool.cancel_started (p := s.pool) ▸ h.acted_started k hk
  · exact fun k hk => h.ended_acted k (Pool.cancel_ended (p := s.pool) ▸ hk)
  · show (s.returned.map Prod.fst ++ (s.expired ++ [j])).Nodup
    rw [← List.append_assoc]
    refine List.nodup_append.2 ⟨h.settled_once, List.nodup_singleton j, fun a ha b hb => ?_⟩
    rw [List.mem_singleton.1 hb]
    rintro rfl
    exact hnot ha
  · simpa only [Pool.cancel_ended] using h.returned_result
  · intro k hk
    rcases List.mem_append.1 hk with hk | hk
    · obtain ⟨hsub, hwait⟩ := h.expired_submitted k hk
      exact ⟨by simpa only [Pool.cancel_submitted] using hsub, fun hmem => hwait (Pool.waiting_of_cancel hmem)⟩
    · obtain rfl := List.mem_singleton.1 hk
      exact ⟨by simpa only [Pool.cancel_submitted] using hj, Pool.not_waiting_cancel hnodup⟩

theorem inv_step {e : Event J} (h : Steps fn s e s') (hi : Inv fn w s) : Inv fn w s' := by
  cases h with
  | submit hp => exact hi.submit hp
  | start hp => exact hi.start hp
  | act hrun hnot => exact hi.act hrun hnot
  | finish hj hp => exact hi.finish hj hp
  | answer hend hnot hr => exact hi.answer hend hnot hr
  | expire hj hnot => exact hi.expire hj hnot

theorem run_inv {es : List (Event J)} (h : run (step fn) es (State.init w) = some s) : Inv fn w s :=
  Lib.run_inv (fun _ _ _ hi hs => inv_step (step_cases hs) hi) h inv_init

/-! ## The sequence of calls -/

omit [DecidableEq J] in
/-- A call whose caller was answered by it took effect. -/
theorem Inv.returned_acted (h : Inv fn w s) {j : J} (hj : j ∈ s.returned.map Prod.fst) : j ∈ s.acted := by
  obtain ⟨x, hx, rfl⟩ := List.mem_map.1 hj
  exact h.ended_acted x.1 (h.returned_result x hx).1

theorem Inv.order_perm (h : Inv fn w s) : s.order.Perm s.pool.submitted := by
  have hacted : s.acted.Perm (s.pool.submitted.filter (· ∈ s.acted)) := by
    refine (List.perm_ext_iff_of_nodup h.acted_once (h.accounted.fresh.filter _)).2 fun j => ?_
    rw [List.mem_filter, decide_eq_true_iff]
    exact ⟨fun hj => ⟨h.accounted.submitted_of_started (h.acted_started j hj), hj⟩, And.right⟩
  refine (hacted.append_right _).trans ?_
  have hsplit := List.filter_append_perm (fun j => decide (j ∈ s.acted)) s.pool.submitted
  simpa only [decide_not] using hsplit

theorem timing_acted {j : J} (hj : j ∈ s.acted) : s.timing j ≠ .outlives false := by
  unfold State.timing
  split
  · exact nofun
  · simp [hj]

theorem Inv.timing_idle (h : Inv fn w s) {j : J} (hj : j ∉ s.acted) : s.timing j = .outlives false := by
  rw [State.timing, if_neg (fun hr => hj (h.returned_acted hr)), decide_eq_false hj]

theorem Inv.timing_expired (h : Inv fn w s) {j : J} (hj : j ∈ s.expired) : s.timing j = .outlives (decide (j ∈ s.acted)) := by
  refine if_neg fun hr => ?_
  exact (List.nodup_append.1 h.settled_once).2.2 j hr j hj rfl

theorem Inv.serial_order (h : Inv fn w s) : serial fn s.timing s.order w =
    ((s.results.map fun x => (x.1, report (s.timing x.1) x.2)) ++
      (s.pool.submitted.filter (· ∉ s.acted)).map fun j => (j, .error offloadTimeoutError), s.world) := by
  have hidle : ∀ j ∈ s.pool.submitted.filter (· ∉ s.acted), s.timing j = .outlives false :=
    fun j hj => h.timing_idle (of_decide_eq_true (List.mem_filter.1 hj).2)
  rw [State.order, serial_append, serial_of_acted (fun j hj => timing_acted hj), h.performed, serial_of_idle hidle]

theorem Inv.answer_serial (h : Inv fn w s) {x : J × Except Exn α} (hx : x ∈ s.answers) :
    x ∈ (serial fn s.timing s.order w).1 := by
  rw [h.serial_order]
  rcases List.mem_append.1 hx with hx | hx
  · obtain ⟨hend, r, hr, hans⟩ := h.returned_result x hx
    have ht : s.timing x.1 = .inTime := if_pos (List.mem_map_of_mem hx)
    refine List.mem_append_left _ (List.mem_map.2 ⟨(x.1, r), hr, ?_⟩)
    rw [ht, report, ← hans]
  · obtain ⟨j, hj, rfl⟩ := List.mem_map.1 hx
    by_cases hacted : j ∈ s.acted
    · obtain ⟨⟨k, r⟩, hr, rfl⟩ := List.mem_map.1 hacted
      refine List.mem_append_left _ (List.mem_map.2 ⟨(k, r), hr, ?_⟩)
      rw [h.timing_expired hj, report]
    · refine List.mem_append_right _ (List.mem_map.2 ⟨j, List.mem_filter.2 ⟨(h.expired_submitted j hj).1, ?_⟩, rfl⟩)
      exact decide_eq_true hacted

/-- The pool's calls, at most eight at a time, do what the same offloaded calls
do one after the other, and each caller gets the answer it gets there. -/
theorem run_offloads {es : List (Event J)} (h : run (step fn) es (State.init w) = some s) :
    s.pool.running.length ≤ 8 ∧ s.order.Perm s.pool.submitted ∧ s.order.Nodup ∧
      (serial fn s.timing s.order w).2 = s.world ∧ (∀ x ∈ s.answers, x ∈ (serial fn s.timing s.order w).1) ∧
      (s.answers.map Prod.fst).Nodup := by
  have hi := run_inv h
  refine ⟨s.pool.bounded, hi.order_perm, hi.order_perm.nodup_iff.2 hi.accounted.fresh, ?_, fun x hx => hi.answer_serial hx, ?_⟩
  · rw [hi.serial_order]
  · have hmap : s.answers.map Prod.fst = s.settled := by
      simp only [State.answers, State.settled, List.map_append, List.map_map, Function.comp_def, List.map_id']
    rw [hmap]
    exact hi.settled_once

end Z4jCelery.Offload.Calls
