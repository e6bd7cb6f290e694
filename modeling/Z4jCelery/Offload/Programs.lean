import Z4jCelery.Offload.Calls.Stalled
import Mathlib.Logic.Function.Basic
/-!
# Commands that make several calls

A `Program` is a command as the offloaded calls it makes, each with what it does
after its wait. Any number of programs share the pool (`step`). A program has
heard what its calls were answered, in their order, and waits for one call at
most (`Inv`).
-/

namespace Z4jCelery.Offload.Programs

open Py Lib

variable {P κ σ α ρ : Type}

/-! ## Programs -/

inductive Program (κ α ρ : Type) where
  | done (answer : ρ)
  | call (k : κ) (next : Except Exn α → Program κ α ρ)

namespace Program

/-- The program on its own: `await offload` for each call, the `n`-th with the
timing of `n`. -/
def alone (interp : κ → PyM σ α) (timing : Nat → Timing) : Nat → Program κ α ρ → σ → ρ × σ
  | _, done answer, w => (answer, w)
  | n, call k next, w =>
    let r := offload (timing n) (interp k) w
    alone interp timing (n + 1) (next (outcome r)) (final r)

/-- What is left after its calls were answered. -/
def after : Program κ α ρ → List (Except Exn α) → Program κ α ρ
  | program, [] => program
  | done answer, _ :: _ => done answer
  | call _ next, r :: rs => (next r).after rs

theorem after_done (answer : ρ) (rs : List (Except Exn α)) : (done answer : Program κ α ρ).after rs = done answer := by
  cases rs <;> rfl

/-- The call it makes next. -/
def current : Program κ α ρ → Option κ
  | done _ => none
  | call k _ => some k

def answer : Program κ α ρ → Option ρ
  | done answer => some answer
  | call _ _ => none

theorem answer_eq_some {program : Program κ α ρ} {a : ρ} : program.answer = some a ↔ program = .done a := by
  cases program with
  | done b => exact ⟨fun h => congrArg done (Option.some.inj h), fun h => congrArg some (done.inj h)⟩
  | call k next => exact ⟨nofun, nofun⟩

end Program

/-! ## The machine -/

/-- A call: its program, and what this had heard when it made the call. -/
abbrev Job (P α : Type) : Type := P × List (Except Exn α)

structure State (P σ α : Type) where
  calls : Calls.State (Job P α) σ α
  heard : P → List (Except Exn α)

def init (w : σ) : State P σ α := ⟨.init w, fun _ => []⟩

def job (interp : P → κ → PyM σ α) (programs : P → Program κ α ρ) (j : Job P α) : PyM σ α :=
  match ((programs j.1).after j.2).current with
  | some k => interp j.1 k
  | none => throw offloadTimeoutError

variable [DecidableEq P] [DecidableEq α]

/-- The caller of `j` goes on with what its wait gave. -/
def State.tell (s : State P σ α) (calls : Calls.State (Job P α) σ α) (j : Job P α) (r : Except Exn α) : State P σ α :=
  ⟨calls, Function.update s.heard j.1 (j.2 ++ [r])⟩

/-- A program makes the call that it is at; the pool is as it is for any calls. -/
def step (interp : P → κ → PyM σ α) (programs : P → Program κ α ρ) (s : State P σ α) (e : Calls.Event (Job P α)) :
    Option (State P σ α) :=
  (Calls.step (job interp programs) s.calls e).bind fun calls =>
    match e with
    | .submit j =>
      if j.2 = s.heard j.1 ∧ ((programs j.1).after j.2).current.isSome then some { s with calls := calls } else none
    | .answer j => (s.calls.results.find? fun x => x.1 = j).map fun x => s.tell calls j (Calls.answered x.2)
    | .expire j => some (s.tell calls j (.error offloadTimeoutError))
    | _ => some { s with calls := calls }

variable {interp : P → κ → PyM σ α} {programs : P → Program κ α ρ} {w : σ} {s s' : State P σ α}
  {e : Calls.Event (Job P α)}

theorem step_calls (h : step interp programs s e = some s') :
    Calls.step (job interp programs) s.calls e = some s'.calls := by
  obtain ⟨calls, hcalls, h⟩ := Option.bind_eq_some_iff.1 h
  rw [hcalls]
  cases e with
  | submit j =>
    simp only at h
    split at h
    · exact Option.some.inj h ▸ rfl
    · cases h
  | start => exact Option.some.inj h ▸ rfl
  | act j => exact Option.some.inj h ▸ rfl
  | finish j => exact Option.some.inj h ▸ rfl
  | answer j =>
    obtain ⟨x, -, rfl⟩ := Option.map_eq_some_iff.1 h
    rfl
  | expire j => exact Option.some.inj h ▸ rfl

/-- The calls of programs are calls on the pool. -/
theorem run_calls {es : List (Calls.Event (Job P α))} (h : run (step interp programs) es s = some s') :
    run (Calls.step (job interp programs)) es s.calls = some s'.calls := by
  induction es generalizing s with
  | nil => exact Option.some.inj h ▸ rfl
  | cons e es ih =>
    obtain ⟨t, he, ht⟩ := run_cons.1 h
    exact run_cons.2 ⟨t.calls, step_calls he, ih ht⟩

/-! ## What programs have heard -/

section Answers
omit [DecidableEq P] [DecidableEq α]
variable {calls : Calls.State (Job P α) σ α} {j : Job P α} {r : Except Exn α} {x : Job P α × Except Exn α}

theorem mem_answers_answer : x ∈ Calls.State.answers { calls with returned := calls.returned ++ [(j, r)] } ↔
    x ∈ calls.answers ∨ x = (j, r) := by
  simp only [Calls.State.answers, List.mem_append, List.mem_singleton]
  exact or_right_comm

theorem mem_answers_expire {pool : Pool (Job P α) Calls.MAX_WORKERS} :
    x ∈ Calls.State.answers { calls with pool := pool, expired := calls.expired ++ [j] } ↔
      x ∈ calls.answers ∨ x = (j, .error offloadTimeoutError) := by
  simp only [Calls.State.answers, List.map_append, List.map_cons, List.map_nil, List.mem_append, List.mem_singleton,
    or_assoc]

end Answers

structure Inv (interp : P → κ → PyM σ α) (programs : P → Program κ α ρ) (w : σ) (s : State P σ α) : Prop where
  calls : Calls.Inv (job interp programs) w s.calls
  submitted : ∀ j ∈ s.calls.pool.submitted, j.2 <+: s.heard j.1 ∧ ((programs j.1).after j.2).current.isSome = true
  heard : ∀ j r, j.2 ++ [r] <+: s.heard j.1 ↔ (j, r) ∈ s.calls.answers

omit [DecidableEq P] [DecidableEq α] in
theorem inv_init : Inv interp programs w (init w : State P σ α) := by
  refine ⟨Calls.inv_init, fun _ h => absurd h List.not_mem_nil, fun j r => ?_⟩
  refine iff_of_false (fun h => ?_) List.not_mem_nil
  have hlen := h.length_le
  simp [init] at hlen

omit [DecidableEq P] [DecidableEq α] in
/-- A program waits for the call that it made last. -/
theorem Inv.current (h : Inv interp programs w s) {j : Job P α} (hsub : j ∈ s.calls.pool.submitted)
    (hnot : j ∉ s.calls.settled) : j.2 = s.heard j.1 := by
  obtain ⟨⟨more, hmore⟩, -⟩ := h.submitted j hsub
  cases more with
  | nil => rw [← hmore, List.append_nil]
  | cons r more =>
    refine absurd ?_ hnot
    have hr : (j, r) ∈ s.calls.answers := (h.heard j r).1 ⟨more, by rw [List.append_assoc]; exact hmore⟩
    rcases List.mem_append.1 hr with hr | hr
    · exact List.mem_append_left _ (List.mem_map_of_mem hr)
    · obtain ⟨k, hk, he⟩ := List.mem_map.1 hr
      exact List.mem_append_right _ ((Prod.mk.inj he).1 ▸ hk)

omit [DecidableEq α] in
theorem Inv.tell (h : Inv interp programs w s) {calls : Calls.State (Job P α) σ α}
    (hcalls : Calls.Inv (job interp programs) w calls) {j : Job P α} {r : Except Exn α}
    (hsub : j ∈ s.calls.pool.submitted) (hnot : j ∉ s.calls.settled)
    (hsame : calls.pool.submitted = s.calls.pool.submitted)
    (hanswers : ∀ x, x ∈ calls.answers ↔ x ∈ s.calls.answers ∨ x = (j, r)) : Inv interp programs w (s.tell calls j r) := by
  have hcur := h.current hsub hnot
  have hother : ∀ p, p ≠ j.1 → (s.tell calls j r).heard p = s.heard p := fun p hp => Function.update_of_ne hp _ _
  have hself : (s.tell calls j r).heard j.1 = s.heard j.1 ++ [r] := by
    show Function.update s.heard j.1 (j.2 ++ [r]) j.1 = _
    rw [Function.update_self, hcur]
  refine ⟨hcalls, fun k hk => ?_, fun k q => ?_⟩
  · obtain ⟨hpre, hcall⟩ := h.submitted k (hsame ▸ hk)
    refine ⟨?_, hcall⟩
    by_cases hp : k.1 = j.1
    · rw [hp, hself]
      exact (hp ▸ hpre).trans (List.prefix_append _ _)
    · rw [hother k.1 hp]
      exact hpre
  · show k.2 ++ [q] <+: (s.tell calls j r).heard k.1 ↔ (k, q) ∈ calls.answers
    rw [hanswers, ← h.heard]
    by_cases hp : k.1 = j.1
    · -- of this program the call that was answered is its last
      rw [hp, hself, List.prefix_concat_iff, or_comm]
      refine or_congr_right ⟨fun he => ?_, fun he => ?_⟩
      · obtain ⟨hk, hq⟩ := List.append_inj' he rfl
        exact Prod.ext (Prod.ext hp (hk.trans hcur.symm)) (List.singleton_inj.1 hq)
      · obtain ⟨rfl, rfl⟩ := Prod.mk.inj he
        rw [hcur]
    · rw [hother k.1 hp]
      exact (or_iff_left fun he => hp (congrArg Prod.fst (Prod.mk.inj he).1)).symm

theorem inv_step (h : step interp programs s e = some s') (hi : Inv interp programs w s) : Inv interp programs w s' := by
  have hsteps := Calls.step_cases (step_calls h)
  have hcalls := Calls.inv_step hsteps hi.calls
  obtain ⟨calls, hstep, h⟩ := Option.bind_eq_some_iff.1 h
  cases e with
  | submit j =>
    simp only at h
    split at h
    · rename_i hj
      obtain rfl := Option.some.inj h
      cases hsteps with
      | @submit j pool hp =>
        obtain ⟨-, rfl⟩ := Pool.submit_cases hp
        refine ⟨hcalls, fun k hk => ?_, hi.heard⟩
        rcases List.mem_append.1 hk with hk | hk
        · exact hi.submitted k hk
        · obtain rfl := List.mem_singleton.1 hk
          exact ⟨hj.1 ▸ List.prefix_rfl, hj.2⟩
    · cases h
  | start =>
    obtain rfl := Option.some.inj h
    cases hsteps with
    | @start pool hp =>
      obtain ⟨-, -, -, -, -, -, -, hsub, -, -⟩ := Pool.start_cases hp
      exact ⟨hcalls, fun k hk => hi.submitted k (hsub ▸ hk), hi.heard⟩
  | act j =>
    obtain rfl := Option.some.inj h
    cases hsteps with
    | act hrun hnot => exact ⟨hcalls, hi.submitted, hi.heard⟩
  | finish j =>
    obtain rfl := Option.some.inj h
    cases hsteps with
    | @finish j pool hj hp =>
      obtain ⟨-, -, -, -, hsub, -, -⟩ := Pool.finish_cases hp
      exact ⟨hcalls, fun k hk => hi.submitted k (hsub ▸ hk), hi.heard⟩
  | answer j =>
    obtain ⟨⟨k, r⟩, hfind, rfl⟩ := Option.map_eq_some_iff.1 h
    rw [Calls.step] at hstep
    split at hstep
    · rename_i hj
      rw [hfind] at hstep
      obtain rfl := Option.some.inj hstep
      have hsub := hi.calls.accounted.submitted_of_started (hi.calls.acted_started j (hi.calls.ended_acted j hj.1))
      exact hi.tell hcalls hsub hj.2 rfl fun x => mem_answers_answer
    · cases hstep
  | expire j =>
    obtain rfl := Option.some.inj h
    cases hsteps with
    | expire hsub hnot =>
      exact hi.tell hcalls hsub hnot Pool.cancel_submitted fun x => mem_answers_expire

theorem run_inv {es : List (Calls.Event (Job P α))} (h : run (step interp programs) es (init w) = some s) :
    Inv interp programs w s :=
  Lib.run_inv (fun _ _ _ hi hs => inv_step hs hi) h inv_init

theorem inv_run {es : List (Calls.Event (Job P α))} (h : run (step interp programs) es s = some s')
    (hi : Inv interp programs w s) : Inv interp programs w s' :=
  Lib.run_inv (fun _ _ _ hi hs => inv_step hs hi) h hi

/-! ## The order of a program's calls -/

/-- A program makes a call when it has heard what the call says. -/
theorem submitted_step (h : step interp programs s e = some s') {j : Job P α} (hnot : j ∉ s.calls.pool.submitted)
    (hsub : j ∈ s'.calls.pool.submitted) : j.2 = s.heard j.1 := by
  obtain rfl := (Calls.submitted_cases (Calls.step_cases (step_calls h)) hsub).resolve_left hnot
  obtain ⟨calls, -, h⟩ := Option.bind_eq_some_iff.1 h
  simp only at h
  split at h
  · rename_i hj
    exact hj.1
  · cases h

omit [DecidableEq P] [DecidableEq α] in
/-- What a program heard that is no timeout is what its call did. -/
theorem Inv.returned_of (hi : Inv interp programs w s) {j : Job P α} {r : Except Exn α} (h : j.2 ++ [r] <+: s.heard j.1)
    (hr : r ≠ .error offloadTimeoutError) :
    j ∈ s.calls.returned.map Prod.fst ∧ ∃ q, (j, q) ∈ s.calls.results ∧ r = Calls.answered q := by
  rcases List.mem_append.1 ((hi.heard j r).1 h) with hans | hans
  · obtain ⟨-, q, hq, hrq⟩ := hi.calls.returned_result _ hans
    exact ⟨List.mem_map_of_mem hans, q, hq, hrq⟩
  · obtain ⟨_, -, he⟩ := List.mem_map.1 hans
    exact absurd (Prod.mk.inj he).2.symm hr

/-- A call that takes effect does so after the calls whose answers its program
had when it made it. -/
theorem acts_after {es : List (Calls.Event (Job P α))} (h : run (step interp programs) es (init w) = some s)
    {p : P} {before : List (Except Exn α)} {r : Except Exn α} {heard : List (Except Exn α)}
    (hpre : before ++ [r] <+: heard) (hr : r ≠ .error offloadTimeoutError) (hacted : (p, heard) ∈ s.calls.acted) :
    [(p, before), (p, heard)].Sublist s.calls.acted := by
  have hi := run_inv h
  have hsub := hi.calls.accounted.submitted_of_started (hi.calls.acted_started _ hacted)
  obtain ⟨es₁, e, es₂, t, t', ht, hnot, he, hmade, ht'⟩ :=
    Lib.run_first (I := fun u : State P σ α => (p, heard) ∈ u.calls.pool.submitted) h List.not_mem_nil hsub
  have hit := run_inv ht
  have hheard : heard = t.heard p := submitted_step he hnot hmade
  have hafter : run (step interp programs) (e :: es₂) t = some s := run_cons.2 ⟨t', he, ht'⟩
  have hreturned := (hit.returned_of (j := (p, before)) (hheard ▸ hpre) hr).1
  exact hit.calls.acts_after (run_calls hafter) hreturned hnot hacted

/-! ## Programs that have ended -/

omit [DecidableEq α] in
theorem heard_tell (hi : Inv interp programs w s) {calls : Calls.State (Job P α) σ α} {j : Job P α} {r : Except Exn α}
    (hsub : j ∈ s.calls.pool.submitted) (hnot : j ∉ s.calls.settled) (p : P) : s.heard p <+: (s.tell calls j r).heard p := by
  show s.heard p <+: Function.update s.heard j.1 (j.2 ++ [r]) p
  by_cases hp : p = j.1
  · subst hp
    rw [Function.update_self, hi.current hsub hnot]
    exact List.prefix_append _ _
  · have hother : Function.update s.heard j.1 (j.2 ++ [r]) p = s.heard p := Function.update_of_ne hp _ _
    exact hother.symm ▸ List.prefix_rfl

theorem heard_step (h : step interp programs s e = some s') (hi : Inv interp programs w s) (p : P) :
    s.heard p <+: s'.heard p := by
  have hsteps := Calls.step_cases (step_calls h)
  obtain ⟨calls, -, h⟩ := Option.bind_eq_some_iff.1 h
  cases e with
  | submit j =>
    simp only at h
    split at h
    · exact Option.some.inj h ▸ List.prefix_rfl
    · cases h
  | start => exact Option.some.inj h ▸ List.prefix_rfl
  | act j => exact Option.some.inj h ▸ List.prefix_rfl
  | finish j => exact Option.some.inj h ▸ List.prefix_rfl
  | answer j =>
    obtain ⟨x, -, rfl⟩ := Option.map_eq_some_iff.1 h
    cases hsteps with
    | answer hend hnot _ =>
      exact heard_tell hi (hi.calls.accounted.submitted_of_started (hi.calls.acted_started j (hi.calls.ended_acted j hend)))
        hnot p
  | expire j =>
    obtain rfl := Option.some.inj h
    cases hsteps with
    | expire hsub hnot => exact heard_tell hi hsub hnot p

theorem heard_run {es : List (Calls.Event (Job P α))} (h : run (step interp programs) es s = some s')
    (hi : Inv interp programs w s) (p : P) : s.heard p <+: s'.heard p := by
  induction es generalizing s with
  | nil => exact Option.some.inj h ▸ List.prefix_rfl
  | cons e es ih =>
    obtain ⟨t, he, ht⟩ := run_cons.1 h
    exact (heard_step he hi p).trans (ih ht (inv_step he hi))

/-- A program that has ended makes no more calls. -/
theorem ended_run {es : List (Calls.Event (Job P α))} (h : run (step interp programs) es s = some s')
    (hi : Inv interp programs w s) {p : P} {a : ρ} (hanswer : ((programs p).after (s.heard p)).answer = some a) :
    s'.heard p = s.heard p := by
  obtain ⟨more, hmore⟩ := heard_run h hi p
  cases more with
  | nil => rw [← hmore, List.append_nil]
  | cons r more =>
    have hi' := inv_run h hi
    have hr : ((p, s.heard p), r) ∈ s'.calls.answers :=
      (hi'.heard (p, s.heard p) r).1 ⟨more, by rw [List.append_assoc]; exact hmore⟩
    have hcur := (hi'.submitted _ (hi'.calls.answered_submitted hr)).2
    rw [Program.answer_eq_some.1 hanswer] at hcur
    cases hcur

/-- Whatever call of it takes effect, then or later, its wait is over. -/
theorem ended_answered {es : List (Calls.Event (Job P α))} (h : run (step interp programs) es s = some s')
    (hi : Inv interp programs w s) {j : Job P α} {a : ρ}
    (hanswer : ((programs j.1).after (s.heard j.1)).answer = some a) (hj : j ∈ s'.calls.acted) :
    ∃ r, (j, r) ∈ s.calls.answers := by
  have hi' := inv_run h hi
  obtain ⟨⟨more, hmore⟩, hcur⟩ :=
    hi'.submitted j (hi'.calls.accounted.submitted_of_started (hi'.calls.acted_started j hj))
  rw [ended_run h hi hanswer] at hmore
  cases more with
  | nil =>
    rw [List.append_nil] at hmore
    rw [hmore, Program.answer_eq_some.1 hanswer] at hcur
    cases hcur
  | cons r more => exact ⟨r, (hi.heard j r).1 ⟨more, by rw [List.append_assoc]; exact hmore⟩⟩

end Z4jCelery.Offload.Programs
