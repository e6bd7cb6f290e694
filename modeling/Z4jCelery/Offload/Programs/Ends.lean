import Z4jCelery.Offload.Calls.Progress
import Z4jCelery.Offload.Programs
import Mathlib.Algebra.Order.BigOperators.Group.Finset
import Mathlib.Data.Fintype.Basic
/-!
# Every program ends

Where each program makes a bounded number of calls (`AtMost`), every run of them
on the pool is bounded (`length_le`). A program is brought to its answer by its
own waits alone, whatever the threads do (`Inv.ends_alone`), and the pool stops
only when all programs have ended (`idle`).
-/

namespace Z4jCelery.Offload.Programs

open Py Lib

variable {P κ σ α ρ : Type}

/-! ## The number of calls -/

/-- Whatever it is answered, the program makes at most `n` calls. -/
inductive Program.AtMost : Nat → Program κ α ρ → Prop where
  | done {n : Nat} {answer : ρ} : AtMost n (.done answer)
  | call {n : Nat} {k : κ} {next : Except Exn α → Program κ α ρ} : (∀ r, AtMost n (next r)) → AtMost (n + 1) (.call k next)

namespace Program

theorem AtMost.mono {n m : Nat} {program : Program κ α ρ} (h : program.AtMost n) (hle : n ≤ m) : program.AtMost m := by
  induction h generalizing m with
  | done => exact .done
  | @call n k next _ ih =>
    obtain ⟨m, rfl⟩ : ∃ i, m = i + 1 := ⟨m - 1, by omega⟩
    exact .call fun r => ih r (by omega)

/-- A program that makes a call has heard less than it can. -/
theorem AtMost.heard_lt {n : Nat} {program : Program κ α ρ} (h : program.AtMost n) {rs : List (Except Exn α)}
    (hcur : (program.after rs).current.isSome = true) : rs.length < n := by
  induction h generalizing rs with
  | done => cases rs <;> cases hcur
  | call _ ih =>
    cases rs with
    | nil => exact Nat.succ_pos _
    | cons r rs => exact Nat.succ_lt_succ (ih r hcur)

theorem AtMost.after {n : Nat} {program : Program κ α ρ} (h : program.AtMost n) (rs : List (Except Exn α)) :
    (program.after rs).AtMost n := by
  induction h generalizing rs with
  | done => cases rs <;> exact .done
  | @call n k next hnext ih =>
    cases rs with
    | nil => exact .call hnext
    | cons r rs => exact (ih r rs).mono (Nat.le_succ _)

/-- The program goes on with the answer to its call. -/
theorem after_call {program : Program κ α ρ} {rs : List (Except Exn α)} {k : κ} {next : Except Exn α → Program κ α ρ}
    (h : program.after rs = .call k next) (r : Except Exn α) : program.after (rs ++ [r]) = next r := by
  induction rs generalizing program with
  | nil =>
    cases program with
    | done a => cases h
    | call k' next' =>
      obtain ⟨rfl, rfl⟩ := Program.call.inj h
      cases hr : next' r <;> simp only [List.nil_append, after, hr]
  | cons q rs ih =>
    cases program with
    | done a => cases h
    | call k' next' => exact ih h

end Program

variable [DecidableEq P] [DecidableEq α] {interp : P → κ → PyM σ α} {programs : P → Program κ α ρ} {w : σ}
  {s s' : State P σ α}

omit [DecidableEq P] [DecidableEq α] in
/-- The calls of a program differ in how much it had heard. -/
theorem Inv.lengths_nodup [DecidableEq P] (hi : Inv interp programs w s) (p : P) {js : List (Job P α)} (hnodup : js.Nodup)
    (hsub : ∀ j ∈ js, j ∈ s.calls.pool.submitted) :
    ((js.filter fun j => j.1 = p).map fun j => j.2.length).Nodup := by
  have hmine : ∀ j ∈ js.filter (fun j => j.1 = p), j.1 = p ∧ j.2 <+: s.heard p := by
    intro j hj
    obtain ⟨hmem, hp⟩ := List.mem_filter.1 hj
    obtain rfl := of_decide_eq_true hp
    exact ⟨rfl, (hi.submitted j (hsub j hmem)).1⟩
  refine List.Nodup.map_on (fun j hj k hk hlen => ?_) (hnodup.filter _)
  obtain ⟨hj, hjpre⟩ := hmine j hj
  obtain ⟨hk, hkpre⟩ := hmine k hk
  exact Prod.ext (hj.trans hk.symm) ((List.prefix_of_prefix_length_le hjpre hkpre hlen.le).eq_of_length hlen)

omit [DecidableEq P] [DecidableEq α] in
theorem Inv.calls_le [DecidableEq P] (hi : Inv interp programs w s) {p : P} {n : Nat} (hn : (programs p).AtMost n) :
    (s.calls.pool.submitted.map Prod.fst).count p ≤ n := by
  have hsub : ((s.calls.pool.submitted.filter fun j => j.1 = p).map fun j => j.2.length) ⊆ List.range n := by
    intro i hmem
    obtain ⟨j, hj, rfl⟩ := List.mem_map.1 hmem
    obtain ⟨hmade, hp⟩ := List.mem_filter.1 hj
    obtain rfl := of_decide_eq_true hp
    exact List.mem_range.2 (hn.heard_lt (hi.submitted j hmade).2)
  have hle := (List.subperm_of_subset (hi.lengths_nodup p hi.calls.accounted.fresh fun _ hj => hj) hsub).length_le
  rw [List.length_map, List.length_range, ← List.countP_eq_length_filter] at hle
  rw [List.count, List.countP_map]
  refine Nat.le_trans (Nat.le_of_eq (List.countP_congr fun j _ => ?_)) hle
  simp only [Function.comp_apply, beq_iff_eq, decide_eq_true_eq]

/-- A run of programs that make so many calls each. -/
theorem length_le [Fintype P] {es : List (Calls.Event (Job P α))} {n : P → Nat} (hn : ∀ p, (programs p).AtMost (n p))
    (h : run (step interp programs) es (init w) = some s) : es.length ≤ 5 * ∑ p, n p := by
  have hi := run_inv h
  have hcalls : es.length ≤ 5 * s.calls.pool.submitted.length := Calls.length_le (run_calls h)
  have hcount := Multiset.sum_count_eq_card (s := Finset.univ) (m := (s.calls.pool.submitted.map Prod.fst : Multiset P))
    fun p _ => Finset.mem_univ p
  simp only [Multiset.coe_count, Multiset.coe_card, List.length_map] at hcount
  have hsum : ∑ p, (s.calls.pool.submitted.map Prod.fst).count p ≤ ∑ p, n p :=
    Finset.sum_le_sum fun p _ => hi.calls_le (hn p)
  omega

/-! ## The waits of a program -/

omit [DecidableEq P] [DecidableEq α] in
theorem Inv.waits (hi : Inv interp programs w s) (p : P) : (p, s.heard p) ∉ s.calls.settled := by
  intro hmem
  obtain ⟨r, hr⟩ : ∃ r, ((p, s.heard p), r) ∈ s.calls.answers := by
    rcases List.mem_append.1 hmem with hmem | hmem
    · obtain ⟨x, hx, he⟩ := List.mem_map.1 hmem
      exact ⟨x.2, List.mem_append_left _ (he ▸ hx)⟩
    · exact ⟨_, List.mem_append_right _ (List.mem_map_of_mem hmem)⟩
  have hlen := ((hi.heard (p, s.heard p) r).2 hr).length_le
  rw [List.length_append] at hlen
  exact absurd hlen (Nat.not_succ_le_self _)

/-- The wait for the call that a program is at can expire. -/
theorem Inv.expires (hi : Inv interp programs w s) {p : P} (hsub : (p, s.heard p) ∈ s.calls.pool.submitted) :
    ∃ s', step interp programs s (.expire (p, s.heard p)) = some s' ∧
      s'.heard p = s.heard p ++ [.error offloadTimeoutError] := by
  refine ⟨_, by rw [step, Calls.step, if_pos ⟨hsub, hi.waits p⟩]; rfl, ?_⟩
  exact Function.update_self _ _ _

variable (interp) in
/-- A program makes the call that it is at. -/
theorem submits {p : P} (hcur : ((programs p).after (s.heard p)).current.isSome = true)
    (hnot : (p, s.heard p) ∉ s.calls.pool.submitted) :
    ∃ s', step interp programs s (.submit (p, s.heard p)) = some s' ∧ s'.heard p = s.heard p ∧
      (p, s.heard p) ∈ s'.calls.pool.submitted := by
  obtain ⟨pool, hpool, hmem⟩ := Pool.submit_fresh hnot
  refine ⟨{ s with calls := { s.calls with pool := pool } }, ?_, rfl, hmem⟩
  rw [step, Calls.step, hpool]
  exact if_pos ⟨rfl, hcur⟩

/-- A call of a program, or the end of the wait for one. -/
def OwnWait (p : P) (e : Calls.Event (Job P α)) : Prop := ∃ rs, e = .submit (p, rs) ∨ e = .expire (p, rs)

/-- Its own timeouts bring a program to its answer. -/
theorem Inv.ends_alone (hi : Inv interp programs w s) {p : P} {n : Nat}
    (hn : ((programs p).after (s.heard p)).AtMost n) :
    ∃ es s', (∀ e ∈ es, OwnWait p e) ∧ run (step interp programs) es s = some s' ∧
      ((programs p).after (s'.heard p)).answer.isSome = true := by
  induction n generalizing s with
  | zero =>
    refine ⟨[], s, nofun, rfl, ?_⟩
    cases hprogram : (programs p).after (s.heard p) with
    | done a => rfl
    | call k next => rw [hprogram] at hn; cases hn
  | succ n ih =>
    cases hprogram : (programs p).after (s.heard p) with
    | done a => exact ⟨[], s, nofun, rfl, by rw [hprogram]; rfl⟩
    | call k next =>
      -- after the timeout the program is at what follows the call
      have hexpired : ∀ t : State P σ α, Inv interp programs w t → t.heard p = s.heard p →
          (p, s.heard p) ∈ t.calls.pool.submitted → ∃ es s', (∀ e ∈ es, OwnWait p e) ∧
            run (step interp programs) es t = some s' ∧ ((programs p).after (s'.heard p)).answer.isSome = true := by
        intro t ht hheard hsub
        obtain ⟨t', hexp, hheard'⟩ := ht.expires (hheard ▸ hsub)
        have hnext : ((programs p).after (t'.heard p)).AtMost n := by
          rw [hheard', hheard, Program.after_call hprogram]
          rw [hprogram] at hn
          cases hn with
          | call hn => exact hn _
        obtain ⟨es, s', hown, hrun, hend⟩ := ih (inv_step hexp ht) hnext
        refine ⟨_ :: es, s', ?_, run_cons.2 ⟨t', hexp, hrun⟩, hend⟩
        exact List.forall_mem_cons.2 ⟨⟨_, .inr rfl⟩, hown⟩
      by_cases hsub : (p, s.heard p) ∈ s.calls.pool.submitted
      · exact hexpired s hi rfl hsub
      · obtain ⟨t, hmade, hheard, hmem⟩ := submits interp (by rw [hprogram]; rfl) hsub
        obtain ⟨es, s', hown, hrun, hend⟩ := hexpired t (inv_step hmade hi) hheard hmem
        refine ⟨_ :: es, s', ?_, run_cons.2 ⟨t, hmade, hrun⟩, hend⟩
        exact List.forall_mem_cons.2 ⟨⟨_, .inl rfl⟩, hown⟩

/-! ## A pool that stops -/

/-- Nothing can happen but that waits expire. -/
def Idle (interp : P → κ → PyM σ α) (programs : P → Program κ α ρ) (s : State P σ α) : Prop :=
  ∀ e, (∀ j, e ≠ .expire j) → step interp programs s e = none

theorem Idle.calls_none (h : Idle interp programs s) {e : Calls.Event (Job P α)} (hexp : ∀ j, e ≠ .expire j)
    (hsome : ∀ calls, Calls.step (job interp programs) s.calls e = some calls → (step interp programs s e).isSome = true) :
    Calls.step (job interp programs) s.calls e = none := by
  cases hcalls : Calls.step (job interp programs) s.calls e with
  | none => rfl
  | some calls =>
    have hstep := hsome calls hcalls
    rw [h e hexp] at hstep
    cases hstep

/-- The calls of the programs have halted then. -/
theorem Idle.halted (h : Idle interp programs s) : Calls.Halted (job interp programs) s.calls := by
  refine ⟨h.calls_none nofun ?_, fun j => h.calls_none nofun ?_, fun j => h.calls_none nofun ?_,
    fun j => h.calls_none nofun ?_⟩ <;> intro calls hcalls <;> rw [step, hcalls, Option.bind_some]
  · rfl
  · rfl
  · rfl
  · -- the wait has its result, or the call would not have been answered
    rw [Calls.step] at hcalls
    split at hcalls
    · obtain ⟨x, hx, -⟩ := Option.map_eq_some_iff.1 hcalls
      simp only [hx, Option.map_some, Option.isSome_some]
    · cases hcalls

/-- Programs that all wait have ended, and so have their threads. -/
theorem idle {es : List (Calls.Event (Job P α))} (h : run (step interp programs) es (init w) = some s)
    (hidle : Idle interp programs s) : (∀ p, ((programs p).after (s.heard p)).answer.isSome = true) ∧
      s.calls.pool.running = [] ∧ s.calls.pool.waiting = [] := by
  have hi := run_inv h
  obtain ⟨hrun, hwait, hsettled⟩ := Calls.halted (run_calls h) hidle.halted
  refine ⟨fun p => ?_, hrun, hwait⟩
  cases hprogram : (programs p).after (s.heard p) with
  | done a => rfl
  | call k next =>
    by_cases hsub : (p, s.heard p) ∈ s.calls.pool.submitted
    · exact absurd (hsettled _ hsub) (hi.waits p)
    · obtain ⟨t, hmade, -⟩ := submits interp (by rw [hprogram]; rfl) hsub
      rw [hidle (.submit (p, s.heard p)) nofun] at hmade
      cases hmade

end Z4jCelery.Offload.Programs
