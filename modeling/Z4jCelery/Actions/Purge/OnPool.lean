import Z4jCelery.Actions.Purge.Interleaving
import Z4jCelery.Offload.Programs
/-!
# Purges on the pool

A purge makes two offloaded calls, the probe and the purge, on the pool that all
commands share. Whatever the others do to the broker, and whenever the calls
run, an unforced purge takes effect at most once, after its own probe, and only
when the token was verified for what the queue held then (`purge_on_pool`).
-/

namespace Z4jCelery.Actions.Purge

open Py Z4jCelery.Core Offload Lib
open Programs (Program Job)

variable {P μ Secret κ : Type}

/-! ## The action as a program -/

inductive PurgeCall where
  | probe
  | purge

/-- What the thread of a call does. -/
def Purger.thread (p : Purger μ Secret) : PurgeCall → PyM (Broker (List μ)) (Option Val)
  | .probe => fun b => measure_depth (p.env_at b.state) p.queue_name b
  | .purge => do
    let purged ← do_purge p.env p.queue_name
    return some purged

/-- `except Exception: depth = None`. -/
def probed_depth (r : Except Exn (Option Val)) : Option Val := r.toOption.join

def purge_answer (p : Purger μ Secret) (depth : Option Val) (r : Except Exn (Option Val)) : CommandResult :=
  match r with
  | .ok purged => purge_success p.queue_name depth (purged.getD .none) p.force
  | .error exc => purge_failure exc

/-- `purge_queue_action`; it shares the pool with calls of other kinds. -/
def Purger.program (p : Purger μ Secret) : Program (PurgeCall ⊕ κ) (Option Val) (Except Exn CommandResult) :=
  .call (.inl .probe) fun probed =>
    let depth := probed_depth probed
    match guards p.env p.queue_name p.confirm_token p.force depth with
    | .error exc => .done (.error exc)
    | .ok (some refused) => .done (.ok refused)
    | .ok none => .call (.inl .purge) fun purged => .done (.ok (purge_answer p depth purged))

/-- The calls of purges, and any others. -/
def pool_call (purgers : P → Purger μ Secret) (other : P → κ → PyM (Broker (List μ)) (Option Val)) (p : P) :
    PurgeCall ⊕ κ → PyM (Broker (List μ)) (Option Val)
  | .inl c => (purgers p).thread c
  | .inr k => other p k

/-- The environment of an action that meets these timings. -/
def Purger.timed (p : Purger μ Secret) (timing : Nat → Timing) (messages : List μ) : Env (List μ) Secret :=
  { p.env_at messages with probe_timing := timing 0, purge_timing := timing 1 }

theorem offload_congr {σ α : Type} {f g : PyM σ α} {s : σ} (t : Timing) (h : f s = g s) : offload t f s = offload t g s := by
  cases t with
  | inTime => simp only [offload, offload_with, h]
  | outlives runs => rw [offload_outlives, offload_outlives, h]

theorem offload_map {σ α β : Type} (t : Timing) (m : PyM σ α) (f : α → β) (s : σ) :
    offload t (m >>= fun a => pure (f a)) s = match offload t m s with
      | .ok a s' => .ok (f a) s'
      | .error e s' => .error e s' := by
  cases hm : m s with
  | ok a s' =>
    have hmap : (m >>= fun a => pure (f a)) s = .ok (f a) s' := bind_ok hm
    cases t with
    | inTime => rw [offload_ok hm, offload_ok hmap]
    | outlives runs => rw [offload_outlives, offload_outlives, hm, hmap]; rfl
  | error e s' =>
    have hmap : (m >>= fun a => pure (f a)) s = .error e s' := bind_error hm
    cases t with
    | inTime => rw [offload_error hm, offload_error hmap]
    | outlives runs => rw [offload_outlives, offload_outlives, hm, hmap]; rfl

theorem probe_eq (env : Env (List μ) Secret) (queue_name : String) (b : Broker (List μ)) :
    let r := offload env.probe_timing (measure_depth env queue_name) b
    probe env queue_name b = .ok (probed_depth (outcome r)) (final r) := by
  intro r
  cases hr : r with
  | ok depth b' => exact tryExcept_ok hr _
  | error exc b' => exact tryExcept_error hr _

theorem purge_phase_eq (p : Purger μ Secret) (env : Env (List μ) Secret) (depth : Option Val) (b : Broker (List μ)) :
    let r := offload env.purge_timing (do_purge env p.queue_name >>= fun purged => pure (some purged)) b
    purge_phase env p.queue_name depth p.force b = .ok (purge_answer p depth (outcome r)) (final r) := by
  intro r
  have hr : r = _ := offload_map env.purge_timing (do_purge env p.queue_name) some b
  rw [hr, purge_phase]
  cases hoff : offload env.purge_timing (do_purge env p.queue_name) b with
  | ok purged b' =>
    have hbody : (offload env.purge_timing (do_purge env p.queue_name) >>= fun purged =>
        pure (purge_success p.queue_name depth purged p.force)) b =
        .ok (purge_success p.queue_name depth purged p.force) b' := bind_ok hoff
    exact tryExcept_ok hbody _
  | error exc b' => exact tryExcept_error (bind_error hoff) _

/-- On its own the program is the action. -/
theorem program_alone (p : Purger μ Secret) (timing : Nat → Timing) (b : Broker (List μ)) :
    let alone := p.program.alone (pool_call (fun _ : Unit => p) (fun _ (k : Empty) => k.elim) ()) timing 0 b
    let action := purge_queue_action (p.timed timing b.state) p.queue_name p.confirm_token p.force b
    outcome action = alone.1 ∧ final action = alone.2 := by
  intro alone action
  have hread : offload (timing 0) (p.thread .probe) b =
      offload (timing 0) (measure_depth (p.timed timing b.state) p.queue_name) b := offload_congr _ rfl
  have hprobe := probe_eq (p.timed timing b.state) p.queue_name b
  simp only [alone, Purger.program, Program.alone, pool_call, hread]
  simp only [show (p.timed timing b.state).probe_timing = timing 0 from rfl] at hprobe
  generalize offload (timing 0) (measure_depth (p.timed timing b.state) p.queue_name) b = r at hprobe ⊢
  obtain ⟨k, hstart, hsome, hnone⟩ := action_after_probe hprobe p.confirm_token p.force
  have haction : action = _ := hstart
  have hguards : guards (p.timed timing b.state) p.queue_name p.confirm_token p.force (probed_depth (outcome r)) =
      guards p.env p.queue_name p.confirm_token p.force (probed_depth (outcome r)) := rfl
  rw [haction, hguards]
  cases guards p.env p.queue_name p.confirm_token p.force (probed_depth (outcome r)) with
  | error exc => exact ⟨rfl, rfl⟩
  | ok refused =>
    rw [ofOutcome_ok, bind_ok (pure_apply _ _)]
    cases refused with
    | some refused =>
      rw [hsome]
      exact ⟨rfl, rfl⟩
    | none =>
      rw [hnone, purge_phase_eq]
      exact ⟨rfl, rfl⟩

/-! ## On the pool -/

section Pool
variable [DecidableEq P] {purgers : P → Purger μ Secret} {other : P → κ → PyM (Broker (List μ)) (Option Val)}
  {programs : P → Program (PurgeCall ⊕ κ) (Option Val) (Except Exn CommandResult)} {b : Broker (List μ)}
  {s : Programs.State P (Broker (List μ)) (Option Val)}

/-- What an unforced purge heard before it goes on. -/
theorem guards_pass {p : Purger μ Secret} (hforce : p.force = false) {r : Except Exn (Option Val)}
    (h : guards p.env p.queue_name p.confirm_token p.force (probed_depth r) = .ok none) :
    ∃ token d, r = .ok (some d) ∧ p.confirm_token = some token ∧ d.int?.getD 0 ≤ purge_threshold p.env ∧
      ∃ secret legacy, resolve_agent_secret p.env = .ok secret ∧
        p.env.verify_purge_confirm_token token p.queue_name d secret p.env.accept_legacy_from_env = .ok (true, legacy) := by
  rw [guards, hforce] at h
  obtain ⟨token, d, htoken, hd, hle, hverified⟩ := refusal_none.1 h
  refine ⟨token, d, ?_, htoken, hle, hverified⟩
  cases r with
  | error exc => cases hd
  | ok depth => exact congrArg Except.ok hd

/-- A purge is at most at its second call, and there its guards have passed. -/
theorem program_current {p : Purger μ Secret} {h : List (Except Exn (Option Val))} (hne : h ≠ [])
    (hcur : ((p.program (κ := κ)).after h).current.isSome = true) :
    ∃ r, h = [r] ∧ guards p.env p.queue_name p.confirm_token p.force (probed_depth r) = .ok none := by
  obtain ⟨r, rest, rfl⟩ := List.exists_cons_of_ne_nil hne
  simp only [Purger.program, Program.after] at hcur
  cases hg : guards p.env p.queue_name p.confirm_token p.force (probed_depth r) with
  | error exc =>
    rw [hg] at hcur
    cases rest <;> cases hcur
  | ok refused =>
    rw [hg] at hcur
    cases refused with
    | some refused => cases rest <;> cases hcur
    | none =>
      cases rest with
      | nil => exact ⟨r, rfl, hg⟩
      | cons q rest => cases rest <;> cases hcur

/-- Where a call stands in a list without repetitions, and a later one. -/
theorem after_of_sublist {J : Type} {js before after : List J} {j k : J} (hnodup : js.Nodup) (hsub : [j, k].Sublist js)
    (hjs : js = before ++ j :: after) : k ∈ after := by
  obtain ⟨first, second, hsplit, hj, hk⟩ := List.cons_sublist_iff.1 hsub
  obtain ⟨l, l', rfl⟩ := List.append_of_mem hj
  have hsplit' : js = l ++ j :: (l' ++ second) := by rw [hsplit, List.append_assoc, List.cons_append]
  have hbefore : j ∉ before ∧ j ∉ after := by
    rw [hjs, List.nodup_middle, List.nodup_cons, List.mem_append, not_or] at hnodup
    exact hnodup.1
  have hafter : after = l' ++ second :=
    ((List.append_cons_inj_of_notMem hbefore.1 hbefore.2).1 (hjs.symm.trans hsplit')).2.2
  rw [hafter]
  exact List.mem_append_right _ (List.singleton_sublist.1 hk)

omit [DecidableEq P] in
/-- What an unforced purge heard when it made its second call. -/
theorem purge_heard (hi : Programs.Inv (pool_call purgers other) programs b s) {j : Job P (Option Val)}
    (hp : programs j.1 = (purgers j.1).program) (hforce : (purgers j.1).force = false) (hj : j ∈ s.calls.acted)
    (hne : j.2 ≠ []) :
    ∃ d, j.2 = [.ok (some d)] ∧ j.2 <+: s.heard j.1 ∧ ∃ token, (purgers j.1).confirm_token = some token ∧
      d.int?.getD 0 ≤ purge_threshold (purgers j.1).env ∧
      ∃ secret legacy, resolve_agent_secret (purgers j.1).env = .ok secret ∧
        (purgers j.1).env.verify_purge_confirm_token token (purgers j.1).queue_name d secret
          (purgers j.1).env.accept_legacy_from_env = .ok (true, legacy) := by
  obtain ⟨hpre, hcur⟩ := hi.submitted j (hi.calls.accounted.submitted_of_started (hi.calls.acted_started j hj))
  rw [hp] at hcur
  obtain ⟨r, hr, hguards⟩ := program_current hne hcur
  obtain ⟨token, d, rfl, htoken, hle, hverified⟩ := guards_pass hforce hguards
  exact ⟨d, hr, hpre, token, htoken, hle, hverified⟩

theorem answered_ok {α : Type} {r : Except Exn α} {a : α} (h : Calls.answered r = .ok a) : r = .ok a := by
  cases r with
  | ok a' => exact h
  | error e => cases h

omit [DecidableEq P] in
/-- The probe's thread counts the messages. -/
theorem probe_counts {p : P} (hp : programs p = (purgers p).program) (hcount : Counting (purgers p))
    {b : Broker (List μ)} {d : Val}
    (h : outcome (Programs.job (pool_call purgers other) programs (p, []) b) = .ok (some d)) :
    d.int? = some (b.state.length : Int) := by
  have hthread : Programs.job (pool_call purgers other) programs (p, []) b =
      measure_depth ((purgers p).env_at b.state) (purgers p).queue_name b := by
    rw [Programs.job, hp]
    rfl
  rw [hthread] at h
  cases hm : measure_depth ((purgers p).env_at b.state) (purgers p).queue_name b with
  | error e b' =>
    rw [hm] at h
    cases h
  | ok depth b' =>
    rw [hm] at h
    obtain rfl := Except.ok.inj h
    exact measure_counts hcount b.state b _ b' hm d rfl

omit [DecidableEq P] in
/-- A depth that a purge heard is the number of messages when its probe took
effect. -/
theorem probe_heard (hi : Programs.Inv (pool_call purgers other) programs b s) {p : P}
    (hp : programs p = (purgers p).program) (hcount : Counting (purgers p)) {d : Val}
    (hheard : [.ok (some d)] <+: s.heard p) : ∃ before after, s.calls.acted = before ++ (p, []) :: after ∧
      d.int? = some ((Calls.perform (Programs.job (pool_call purgers other) programs) before b).2.state.length : Int) := by
  obtain ⟨-, r, hr, hans⟩ := hi.returned_of (j := (p, [])) hheard nofun
  have hperformed := hi.calls.performed
  obtain ⟨before, after, hacted, hmeasured⟩ := Calls.mem_perform (hperformed ▸ hr :
    ((p, []), r) ∈ (Calls.perform (Programs.job (pool_call purgers other) programs) s.calls.acted b).1)
  exact ⟨before, after, hacted, probe_counts hp hcount (hmeasured.symm.trans (answered_ok hans.symm))⟩

/-- Its second call takes effect after its probe, and its token was verified for
what this counted. -/
theorem purge_verified {es : List (Calls.Event (Job P (Option Val)))}
    (h : run (Programs.step (pool_call purgers other) programs) es (Programs.init b) = some s) {p : P}
    (hp : programs p = (purgers p).program) (hforce : (purgers p).force = false) (hcount : Counting (purgers p))
    {heard : List (Except Exn (Option Val))} (hj : (p, heard) ∈ s.calls.acted) (hne : heard ≠ []) :
    ∃ before after, s.calls.acted = before ++ (p, []) :: after ∧ (p, heard) ∈ after ∧
      Verified (purgers p) (Calls.perform (Programs.job (pool_call purgers other) programs) before b).2.state.length := by
  have hi := Programs.run_inv h
  obtain ⟨d, hd, hpre, token, htoken, hle, secret, legacy, hsecret, hverify⟩ := purge_heard hi hp hforce hj hne
  simp only at hd hpre
  subst hd
  have hlate : [(p, []), (p, [.ok (some d)])].Sublist s.calls.acted :=
    Programs.acts_after h (show [] ++ [_] <+: _ from List.prefix_rfl) nofun hj
  obtain ⟨before, after, hacted, hcounted⟩ := probe_heard hi hp hcount hpre
  refine ⟨before, after, hacted, after_of_sublist hi.calls.acted_once hlate hacted, ?_⟩
  rw [hcounted] at hle
  exact ⟨hle, token, d, secret, legacy, htoken, hcounted, hsecret, hverify⟩

/-- Whatever shares the pool, and whatever it does to the broker: an unforced
purge takes effect once at most, after its probe, and only if its token was
verified for the messages that the queue held when the probe took effect. -/
theorem purge_on_pool {es : List (Calls.Event (Job P (Option Val)))}
    (h : run (Programs.step (pool_call purgers other) programs) es (Programs.init b) = some s) {p : P}
    (hp : programs p = (purgers p).program) (hforce : (purgers p).force = false) (hcount : Counting (purgers p)) :
    (s.calls.acted.filter fun j => j.1 = p ∧ j.2 ≠ []).length ≤ 1 ∧
      ∀ j ∈ s.calls.acted, j.1 = p → j.2 ≠ [] → ∃ before after, s.calls.acted = before ++ (p, []) :: after ∧ j ∈ after ∧
        Verified (purgers p) (Calls.perform (Programs.job (pool_call purgers other) programs) before b).2.state.length := by
  have hi := Programs.run_inv h
  refine ⟨?_, ?_⟩
  · have hsame : ∀ j ∈ s.calls.acted.filter fun j => j.1 = p ∧ j.2 ≠ [], j = (p, (s.heard p).take 1) := by
      intro j hj
      obtain ⟨hacted, hpurge⟩ := List.mem_filter.1 hj
      obtain ⟨rfl, hne⟩ := of_decide_eq_true hpurge
      obtain ⟨d, hd, hpre, -⟩ := purge_heard hi hp hforce hacted hne
      refine Prod.ext rfl ?_
      rw [List.prefix_iff_eq_take.1 hpre, hd]
      rfl
    have hnodup := hi.calls.acted_once.filter fun j => decide (j.1 = p ∧ j.2 ≠ [])
    generalize (s.calls.acted.filter fun j => decide (j.1 = p ∧ j.2 ≠ [])) = js at hsame hnodup
    rcases js with _ | ⟨j, _ | ⟨k, js⟩⟩
    · exact Nat.zero_le _
    · exact Nat.le_refl 1
    · refine absurd ?_ (List.nodup_cons.1 hnodup).1
      rw [hsame j List.mem_cons_self, hsame k (List.mem_cons_of_mem _ List.mem_cons_self)]
      exact List.mem_cons_self
  · rintro ⟨q, heard⟩ hj rfl hne
    exact purge_verified h hp hforce hcount hj hne

end Pool

/-- One message is confirmed; before the purge runs another call has published a
second one. -/
theorem purge_on_pool_both :
    let publish : Bool → Unit → PyM (Broker (List Nat)) (Option Val) := fun _ _ => do
      modify fun b => { b with state := b.state ++ [8] }
      return none
    let programs : Bool → Program (PurgeCall ⊕ Unit) (Option Val) (Except Exn CommandResult) := fun purging =>
      if purging then keeper.program else .call (.inr ()) fun _ => .done (.ok (.succeed []))
    let one : Except Exn (Option Val) := .ok (some (.int 1))
    ∃ s, run (Programs.step (pool_call (fun _ => keeper) publish) programs) [.submit (true, []), .submit (false, []),
        .start, .start, .act (true, []), .finish (true, []), .answer (true, []), .submit (true, [one]), .act (false, []),
        .start, .act (true, [one])] (Programs.init ⟨[7], []⟩) = some s ∧
      s.calls.acted.map Prod.fst = [true, false, true] ∧ s.calls.world.state = [] ∧
      ∃ before after, s.calls.acted = before ++ (true, []) :: after ∧ (true, [one]) ∈ after ∧
        Verified keeper (Calls.perform (Programs.job (pool_call (fun _ => keeper) publish) programs) before
          ⟨[7], []⟩).2.state.length := by
  intro publish programs one
  have hend : (run (Programs.step (pool_call (fun _ => keeper) publish) programs) [.submit (true, []), .submit (false, []),
      .start, .start, .act (true, []), .finish (true, []), .answer (true, []), .submit (true, [one]), .act (false, []),
      .start, .act (true, [one])] (Programs.init ⟨[7], []⟩)).map (fun s =>
      (decide ((true, [one]) ∈ s.calls.acted), s.calls.acted.map Prod.fst, s.calls.world.state)) =
      some (true, [true, false, true], []) := by decide +kernel
  obtain ⟨s, hs, hend⟩ := Option.map_eq_some_iff.1 hend
  obtain ⟨hacted, hends⟩ := Prod.mk.inj hend
  obtain ⟨horder, hstate⟩ := Prod.mk.inj hends
  exact ⟨s, hs, horder, hstate, (purge_on_pool hs (p := true) rfl rfl keeper_counting).2 (true, [one])
    (of_decide_eq_true hacted) rfl nofun⟩

end Z4jCelery.Actions.Purge
