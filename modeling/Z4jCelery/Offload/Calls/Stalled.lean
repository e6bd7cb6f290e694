import Z4jCelery.Offload.Calls.Serial
/-!
# A pool whose threads hang

While no thread is freed, a full pool starts nothing: a call that waits never
takes effect, all its caller gets is a timeout, and after the timeout it never
runs (`stalled`). Calls of which each is made after the one before was answered
in time take effect in that order (`in_time_in_order`).
-/

namespace Z4jCelery.Offload.Calls

open Py Lib

variable {J σ α : Type} [DecidableEq J] {fn : J → PyM σ α} {w : σ} {s s' : State J σ α}

/-! ## What later events keep -/

/-- A call withdrawn stays so, and effects are never undone. -/
structure Later (s s' : State J σ α) : Prop where
  withdrawn : ∀ j ∈ s.pool.withdrawn, j ∈ s'.pool.withdrawn
  acted : ∃ more, s'.acted = s.acted ++ more

omit [DecidableEq J] in
theorem Later.refl (s : State J σ α) : Later s s := ⟨fun _ hj => hj, [], (List.append_nil _).symm⟩

omit [DecidableEq J] in
theorem Later.trans {s'' : State J σ α} (h : Later s s') (h' : Later s' s'') : Later s s'' := by
  obtain ⟨more, hmore⟩ := h.acted
  obtain ⟨more', hmore'⟩ := h'.acted
  exact ⟨fun j hj => h'.withdrawn j (h.withdrawn j hj), more ++ more', by rw [hmore', hmore, List.append_assoc]⟩

theorem later_step {e : Event J} (h : Steps fn s e s') : Later s s' := by
  cases h with
  | submit hp =>
    obtain ⟨-, rfl⟩ := Pool.submit_cases hp
    exact ⟨fun _ hj => hj, [], (List.append_nil _).symm⟩
  | start hp =>
    obtain ⟨-, -, -, -, -, -, -, -, -, hwd⟩ := Pool.start_cases hp
    exact ⟨fun j hj => hwd ▸ hj, [], (List.append_nil _).symm⟩
  | @act j hrun hnot => exact ⟨fun _ hj => hj, [j], List.map_append⟩
  | finish hj hp =>
    obtain ⟨-, -, -, -, -, -, hwd⟩ := Pool.finish_cases hp
    exact ⟨fun j hj => hwd ▸ hj, [], (List.append_nil _).symm⟩
  | answer hend hnot hr => exact ⟨fun _ hj => hj, [], (List.append_nil _).symm⟩
  | expire hj hnot => exact ⟨fun _ hk => Pool.withdrawn_cancel hk, [], (List.append_nil _).symm⟩

theorem later_run {es : List (Event J)} (h : run (step fn) es s = some s') : Later s s' :=
  Lib.run_inv (fun _ _ _ hl hs => hl.trans (later_step (step_cases hs))) h (.refl s)

theorem inv_run {es : List (Event J)} (h : run (step fn) es s = some s') (hi : Inv fn w s) : Inv fn w s' :=
  Lib.run_inv (fun _ _ _ hi hs => inv_step (step_cases hs) hi) h hi

/-- A call whose wait expired before it started never takes effect. -/
theorem Inv.withdrawn_never (hi : Inv fn w s) {j : J} (hexp : j ∈ s.expired) (hnot : j ∉ s.pool.started)
    {es : List (Event J)} (h : run (step fn) es s = some s') : j ∉ s'.acted := by
  obtain ⟨hsub, hwait⟩ := hi.expired_submitted j hexp
  have hwd : j ∈ s.pool.withdrawn := (hi.accounted.not_started hsub hnot).resolve_left hwait
  have hi' := inv_run h hi
  exact fun hacted => hi'.accounted.withdrawn_not_started ((later_run h).withdrawn j hwd) (hi'.acted_started j hacted)

/-! ## All threads hang -/

theorem full_step {e : Event J} (h : Steps fn s e s') (hfull : s.pool.running.length = MAX_WORKERS)
    (hhung : ∀ j, e ≠ .finish j) : s'.pool.running = s.pool.running ∧ s'.pool.started = s.pool.started := by
  cases h with
  | submit hp =>
    obtain ⟨-, rfl⟩ := Pool.submit_cases hp
    exact ⟨rfl, rfl⟩
  | start hp =>
    rw [Pool.start_eq_none_of_full hfull] at hp
    cases hp
  | act hrun hnot => exact ⟨rfl, rfl⟩
  | @finish j pool hj hp => exact absurd rfl (hhung j)
  | answer hend hnot hr => exact ⟨rfl, rfl⟩
  | expire hj hnot => exact ⟨Pool.cancel_running, Pool.cancel_started⟩

theorem full_run {es : List (Event J)} (h : run (step fn) es s = some s') (hfull : s.pool.running.length = MAX_WORKERS)
    (hhung : ∀ j, .finish j ∉ es) : s'.pool.running = s.pool.running ∧ s'.pool.started = s.pool.started := by
  induction es generalizing s with
  | nil =>
    obtain rfl := Option.some.inj h
    exact ⟨rfl, rfl⟩
  | cons e es ih =>
    obtain ⟨t, he, ht⟩ := run_cons.1 h
    obtain ⟨hrun, hstart⟩ := full_step (step_cases he) hfull fun j hj => hhung j (hj ▸ List.mem_cons_self)
    obtain ⟨hrun', hstart'⟩ := ih ht (hrun ▸ hfull) fun j hj => hhung j (List.mem_cons_of_mem e hj)
    exact ⟨hrun'.trans hrun, hstart'.trans hstart⟩

omit [DecidableEq J] in
theorem Inv.timeout_of_idle (hi : Inv fn w s) {j : J} (hnot : j ∉ s.acted) {r : Except Exn α} (hr : (j, r) ∈ s.answers) :
    r = .error offloadTimeoutError ∧ j ∈ s.expired := by
  rcases List.mem_append.1 hr with hr | hr
  · exact absurd (hi.returned_acted (List.mem_map_of_mem hr)) hnot
  · obtain ⟨k, hk, he⟩ := List.mem_map.1 hr
    obtain ⟨rfl, rfl⟩ := Prod.mk.inj he
    exact ⟨rfl, hk⟩

omit [DecidableEq J] in
theorem Inv.answered_submitted (hi : Inv fn w s) {x : J × Except Exn α} (hx : x ∈ s.answers) : x.1 ∈ s.pool.submitted := by
  rcases List.mem_append.1 hx with hx | hx
  · have hacted := hi.returned_acted (List.mem_map_of_mem hx)
    exact hi.accounted.submitted_of_started (hi.acted_started x.1 hacted)
  · obtain ⟨k, hk, rfl⟩ := List.mem_map.1 hx
    exact (hi.expired_submitted k hk).1

/-- A call that no thread had taken when all hung. -/
theorem hung_call {es es' : List (Event J)} (h : run (step fn) es (State.init w) = some s)
    (hfull : s.pool.running.length = MAX_WORKERS) (h' : run (step fn) es' s = some s') (hhung : ∀ j, .finish j ∉ es')
    {j : J} (hnot : j ∉ s.pool.started) : j ∉ s'.pool.started ∧ j ∉ s'.acted ∧
      ∀ r, (j, r) ∈ s'.answers → r = .error offloadTimeoutError ∧ j ∈ s'.expired := by
  have hi := inv_run h' (run_inv h)
  rw [← (full_run h' hfull hhung).2] at hnot
  have hidle : j ∉ s'.acted := fun hacted => hnot (hi.acted_started j hacted)
  exact ⟨hnot, hidle, fun r hr => hi.timeout_of_idle hidle hr⟩

/-- From when all eight threads run calls that do not return, no other call takes
effect, each caller gets a timeout or nothing, and a call whose caller got it
takes no effect ever, also when the threads return. -/
theorem stalled {es es' : List (Event J)} (h : run (step fn) es (State.init w) = some s)
    (hfull : s.pool.running.length = 8) (h' : run (step fn) es' s = some s') (hhung : ∀ j, .finish j ∉ es') :
    ∀ j, j ∉ s.pool.started → j ∉ s'.acted ∧ ∀ r, (j, r) ∈ s'.answers → r = .error offloadTimeoutError ∧
      ∀ es'' s'', run (step fn) es'' s' = some s'' → j ∉ s''.acted := by
  intro j hnot
  obtain ⟨hstart, hidle, htimeout⟩ := hung_call h hfull h' hhung hnot
  refine ⟨hidle, fun r hr => ?_⟩
  obtain ⟨herr, hexp⟩ := htimeout r hr
  exact ⟨herr, fun es'' s'' h'' => (inv_run h' (run_inv h)).withdrawn_never hexp hstart h''⟩

/-- Eight calls that hang, and a ninth. -/
theorem stalled_ninth :
    let log : Nat → PyM (List Nat) Unit := fun j => modify (· ++ [j])
    ∃ s s', run (step log) [.submit 0, .submit 1, .submit 2, .submit 3, .submit 4, .submit 5, .submit 6, .submit 7,
        .start, .start, .start, .start, .start, .start, .start, .start] (State.init []) = some s ∧
      run (step log) [.submit 8, .act 3, .expire 8] s = some s' ∧ s'.acted = [3] ∧ 8 ∈ s'.expired ∧
      ∀ es'' s'', run (step log) es'' s' = some s'' → 8 ∉ s''.acted := by
  intro log
  refine ⟨_, _, rfl, rfl, rfl, by decide, ?_⟩
  exact ((stalled 
    (rfl : run (step log) [.submit 0, .submit 1, .submit 2, .submit 3, .submit 4, .submit 5, .submit 6, .submit 7,
      .start, .start, .start, .start, .start, .start, .start, .start] (State.init []) = some _)
    rfl (rfl : run (step log) [.submit 8, .act 3, .expire 8] _ = some _) (by simp) 8 (by decide)).2 _
      (List.mem_singleton.2 rfl)).2

/-! ## The order of effects -/

theorem Inv.acts_after (hi : Inv fn w s) {es' : List (Event J)} (h' : run (step fn) es' s = some s') {j k : J}
    (hj : j ∈ s.returned.map Prod.fst) (hk : k ∉ s.pool.submitted) (hacted : k ∈ s'.acted) : [j, k].Sublist s'.acted := by
  obtain ⟨more, hmore⟩ := (later_run h').acted
  rw [hmore] at hacted ⊢
  have hlate : k ∈ more := (List.mem_append.1 hacted).resolve_left fun hmem =>
    hk (hi.accounted.submitted_of_started (hi.acted_started k hmem))
  exact List.Sublist.append (List.singleton_sublist.2 (hi.returned_acted hj)) (List.singleton_sublist.2 hlate)

/-- A call made after another was answered in time takes effect after it. -/
theorem in_time_in_order {es es' : List (Event J)} (h : run (step fn) es (State.init w) = some s)
    (h' : run (step fn) es' s = some s') {j k : J} (hj : j ∈ s.returned.map Prod.fst) (hk : k ∉ s.pool.submitted)
    (hacted : k ∈ s'.acted) : [j, k].Sublist s'.acted :=
  (run_inv h).acts_after h' hj hk hacted

theorem in_time_in_order_two :
    let log : Nat → PyM (List Nat) Unit := fun j => modify (· ++ [j])
    ∃ s s', run (step log) [.submit 0, .start, .act 0, .finish 0, .answer 0] (State.init []) = some s ∧
      run (step log) [.submit 1, .start, .act 1] s = some s' ∧ [0, 1].Sublist s'.acted := by
  intro log
  refine ⟨_, _, rfl, rfl, ?_⟩
  exact in_time_in_order 
    (rfl : run (step log) [.submit 0, .start, .act 0, .finish 0, .answer 0] (State.init []) = some _)
    (rfl : run (step log) [.submit 1, .start, .act 1] _ = some _) (by decide) (by decide) (by decide)

end Z4jCelery.Offload.Calls
