import Z4jCelery.Lib.Once
/-!
# The pool of each process

A process makes its pool of threads when it first offloads a call. A forked
process has the variables of its parent and one thread of it, so its hook
`reset_offload_executor` drops the pool and replaces the lock, which a thread of
the parent may hold. In every run every call of a process goes to the one pool
that this process made, and no thread waits for one that is not there.
-/

namespace Z4jCelery.Offload.Executor

open Lib Once

variable {P T : Type}

/-- The module's variables and the threads of a process. A pool is known by the
process that made it; `returned` has the executor that each call was given to,
none for the loop's default one. -/
abbrev Process (P T : Type) := Once.State T P

abbrev System (P T : Type) := P → Option (Process P T)

/-- What a fork copies: the variables. The thread that forks is in no use, and
is the only one. -/
def inherited (p : Process P T) : Process P T := { cell := p.cell, lock := p.lock, pc := fun _ => .out, made := [], returned := [] }

def reset_offload_executor (p : Process P T) : Process P T := { p with cell := none, lock := none }

inductive Event (P T : Type) where
  | thread (pid : P) (t : T) (move : Move Unit)
  | fork (parent : P) (t : T) (child : P)

variable [DecidableEq P] [DecidableEq T]

/-- A thread in `_get_executor()`, or one outside of it that forks. A fork's pid
is that of no process so far. -/
def step (s : System P T) : Event P T → Option (System P T)
  | .thread pid t move =>
    ((s pid).bind fun p => Once.step p (t, move.map fun _ => pid)).map fun p => Function.update s pid (some p)
  | .fork parent t child =>
    match s parent, s child with
    | some p, none =>
      match p.pc t with
      | .out => some (Function.update s child (some (reset_offload_executor (inherited p))))
      | _ => none
    | _, _ => none

omit [DecidableEq T] in
def init (pid : P) : System P T := Function.update (fun _ => none) pid (some Once.State.init)

/-! ## The invariant -/

/-- A process's own pool and lock. -/
structure Own (pid : P) (p : Process P T) : Prop where
  once : Once.Inv p
  mine : ∀ a ∈ p.made, a = pid

omit [DecidableEq P] [DecidableEq T] in
theorem own_reset (pid : P) (p : Process P T) : Own pid (reset_offload_executor (inherited p)) :=
  ⟨Once.inv_init, nofun⟩

variable {s s' : System P T}

omit [DecidableEq P] in
theorem own_move {pid : P} {p p' : Process P T} {t : T} {move : Move Unit} (h : Own pid p)
    (hs : Once.step p (t, move.map fun _ => pid) = some p') : Own pid p' := by
  have hcases := Once.step_cases hs
  refine ⟨Once.inv_step hcases h.once, fun a ha => ?_⟩
  rcases Once.made_step hcases with hmade | ⟨b, hb, hmade⟩
  · exact h.mine a (hmade ▸ ha)
  · rw [hmade] at ha
    rcases List.mem_append.1 ha with ha | ha
    · exact h.mine a ha
    · obtain rfl := List.mem_singleton.1 ha
      cases move <;> simp only [Move.map, reduceCtorEq, Move.make.injEq] at hb
      exact hb.symm

theorem own_step {e : Event P T} (h : ∀ pid p, s pid = some p → Own pid p) (hs : step s e = some s') :
    ∀ pid p, s' pid = some p → Own pid p := by
  intro pid p hp
  cases e with
  | thread pid' t move =>
    obtain ⟨p', hp', rfl⟩ := Option.map_eq_some_iff.1 hs
    obtain ⟨q, hq, hstep⟩ := Option.bind_eq_some_iff.1 hp'
    by_cases hpid : pid = pid'
    · subst hpid
      rw [Function.update_self] at hp
      exact Option.some.inj hp ▸ own_move (h pid q hq) hstep
    · rw [Function.update_of_ne hpid] at hp
      exact h pid p hp
  | fork parent t child =>
    rw [step] at hs
    split at hs
    · rename_i q hq hchild
      split at hs
      · obtain rfl := Option.some.inj hs
        by_cases hpid : pid = child
        · subst hpid
          rw [Function.update_self] at hp
          exact Option.some.inj hp ▸ own_reset pid q
        · rw [Function.update_of_ne hpid] at hp
          exact h pid p hp
      · cases hs
    · cases hs

theorem own_run {pid₀ : P} {es : List (Event P T)} (h : run step es (init pid₀) = some s) :
    ∀ pid p, s pid = some p → Own pid p := by
  refine Lib.run_inv (fun _ _ _ hi hs => own_step hi hs) h ?_
  intro pid p hp
  by_cases hpid : pid = pid₀
  · subst hpid
    rw [init, Function.update_self] at hp
    exact Option.some.inj hp ▸ ⟨Once.inv_init, nofun⟩
  · rw [init, Function.update_of_ne hpid] at hp
    cases hp

/-- Each process makes at most one pool, gives every call to it and none to the
loop's default executor or to an inherited pool; and while a thread is about to,
some thread of the process can move. -/
theorem run_own_pool {pid₀ : P} {es : List (Event P T)} (h : run step es (init pid₀) = some s) {pid : P}
    {p : Process P T} (hp : s pid = some p) :
    p.made.length ≤ 1 ∧ (∀ r ∈ p.returned, r.2 = some pid) ∧
      ∀ t, p.pc t ≠ .out → ∃ u move, p.pc u ≠ .out ∧ (step s (.thread pid u move)).isSome = true := by
  have hown := own_run h pid p hp
  obtain ⟨hone, hret⟩ := hown.once.made
  refine ⟨hone, fun r hr => ?_, fun t ht => ?_⟩
  · obtain ⟨a, ha, hmade⟩ := hret r hr
    rw [ha, hown.mine a (hmade ▸ List.mem_singleton.2 rfl)]
  · obtain ⟨u, move, p', hstep, hu, hmake⟩ := hown.once.progress ht pid
    refine ⟨u, move.map fun _ => (), hu, ?_⟩
    have hmap : (move.map fun _ => ()).map (fun _ => pid) = move := by
      cases move with
      | make a => rw [hmake a rfl]; rfl
      | look | acquire | look_again | fail | store | release | read => rfl
    rw [step, hp, Option.bind_some, hmap, hstep]
    rfl

/-- Process 0 forks while one of its threads holds the lock; the child's call gets
a pool of its own. -/
theorem run_own_pool_forked :
    let es : List (Event Nat Nat) := [.thread 0 0 .look, .thread 0 0 .acquire, .fork 0 1 1, .thread 0 0 .look_again,
      .thread 0 0 (.make ()), .thread 1 1 .look, .thread 1 1 .acquire, .thread 1 1 .look_again, .thread 1 1 (.make ()),
      .thread 1 1 .store, .thread 1 1 .release, .thread 1 1 .read]
    ∃ s p, run step es (init 0) = some s ∧ s 1 = some p ∧ p.returned.map Prod.snd = [some 1] ∧ p.made.length ≤ 1 := by
  intro es
  let s : System Nat Nat := (run step es (init 0)).get rfl
  have hs : run step es (init 0) = some s := (Option.some_get _).symm
  let p : Process Nat Nat := (s 1).get rfl
  have hp : s 1 = some p := (Option.some_get _).symm
  exact ⟨s, p, hs, hp, rfl, (run_own_pool hs hp).1⟩

end Z4jCelery.Offload.Executor
