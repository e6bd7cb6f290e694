import Mathlib.Data.List.Perm.Basic
/-!
# A bounded queue, and runs of a machine

A first-in-first-out queue that never holds more than `maxsize` elements, with
the two operations that do not wait. A machine is a partial step function;
`run_inv` carries what each step keeps over a whole run.
-/

namespace Z4jCelery.Lib

/-- A queue: its elements, oldest first, at most `maxsize`. -/
structure Queue (α : Type) (maxsize : Nat) where
  items : List α
  bounded : items.length ≤ maxsize

namespace Queue
variable {α : Type} {maxsize : Nat}

def empty : Queue α maxsize := ⟨[], Nat.zero_le _⟩

/-- The queue with `x` at its end, unless it is full. -/
def put_nowait (q : Queue α maxsize) (x : α) : Option (Queue α maxsize) :=
  if h : q.items.length < maxsize then some ⟨q.items ++ [x], by rw [List.length_append]; exact h⟩ else none

/-- The oldest element and the rest, unless the queue is empty. -/
def get_nowait : Queue α maxsize → Option (α × Queue α maxsize)
  | ⟨[], _⟩ => none
  | ⟨x :: xs, h⟩ => some (x, ⟨xs, Nat.le_of_succ_le h⟩)

theorem ext_items {q q' : Queue α maxsize} (h : q.items = q'.items) : q = q' := by
  cases q; cases q'; simp_all

theorem put_nowait_eq_some {q q' : Queue α maxsize} {x : α} :
    q.put_nowait x = some q' ↔ q.items.length < maxsize ∧ q'.items = q.items ++ [x] := by
  rw [put_nowait]
  split
  · rename_i h
    constructor
    · intro he
      rw [← Option.some.inj he]
      exact ⟨h, rfl⟩
    · exact fun he => congrArg some (ext_items he.2.symm)
  · rename_i h
    exact ⟨fun he => (by cases he), fun he => absurd he.1 h⟩

/-- A put fails exactly on a full queue. -/
theorem put_nowait_eq_none {q : Queue α maxsize} {x : α} : q.put_nowait x = none ↔ q.items.length = maxsize := by
  have hb := q.bounded
  rw [put_nowait]
  split
  · exact ⟨fun he => (by cases he), fun he => by omega⟩
  · exact ⟨fun _ => by omega, fun _ => rfl⟩

theorem get_nowait_eq_some {q q' : Queue α maxsize} {x : α} :
    q.get_nowait = some (x, q') ↔ q.items = x :: q'.items := by
  obtain ⟨items, hb⟩ := q
  cases items with
  | nil => simp [get_nowait]
  | cons y ys =>
    simp only [get_nowait, Option.some.injEq, Prod.mk.injEq, List.cons.injEq]
    exact and_congr_right fun _ => ⟨fun he => congrArg items he, fun he => ext_items he⟩

theorem get_nowait_eq_none {q : Queue α maxsize} : q.get_nowait = none ↔ q.items = [] := by
  obtain ⟨items, hb⟩ := q
  cases items <;> simp [get_nowait]

end Queue

/-! ## Runs -/

section Run
variable {σ ε : Type}

/-- The state after the events, if each was enabled. -/
def run (step : σ → ε → Option σ) : List ε → σ → Option σ
  | [], s => some s
  | e :: es, s => (step s e).bind (run step es)

variable {step : σ → ε → Option σ}

theorem run_cons {e : ε} {es : List ε} {s s' : σ} :
    run step (e :: es) s = some s' ↔ ∃ t, step s e = some t ∧ run step es t = some s' := by
  rw [run, Option.bind_eq_some_iff]

@[simp] theorem run_one {e : ε} {s : σ} : run step [e] s = step s e := by
  rw [run]
  cases step s e <;> rfl

theorem run_append {es es' : List ε} {s : σ} : run step (es ++ es') s = (run step es s).bind (run step es') := by
  induction es generalizing s with
  | nil => rfl
  | cons e es ih =>
    rw [List.cons_append, run, run, Option.bind_assoc]
    congr 1
    funext t
    exact ih

/-- What each step keeps holds after a run. -/
theorem run_inv {I : σ → Prop} (hstep : ∀ s e s', I s → step s e = some s' → I s') {es : List ε} {s s' : σ}
    (h : run step es s = some s') (hs : I s) : I s' := by
  induction es generalizing s with
  | nil => exact Option.some.inj h ▸ hs
  | cons e es ih =>
    obtain ⟨t, he, ht⟩ := run_cons.1 h
    exact ih ht (hstep s e t hs he)

/-- If steps of another machine do what a step does, a run of it does what a run does. -/
theorem run_simulates {τ δ : Type} {step' : τ → δ → Option τ} {R : σ → τ → Prop}
    (hstep : ∀ s e s' t, step s e = some s' → R s t → ∃ ds t', run step' ds t = some t' ∧ R s' t') {es : List ε}
    {s s' : σ} {t : τ} (h : run step es s = some s') (hr : R s t) : ∃ ds t', run step' ds t = some t' ∧ R s' t' := by
  induction es generalizing s t with
  | nil => exact ⟨[], t, rfl, Option.some.inj h ▸ hr⟩
  | cons e es ih =>
    obtain ⟨u, he, hu⟩ := run_cons.1 h
    obtain ⟨ds, v, hds, hv⟩ := hstep s e u t he hr
    obtain ⟨ds', v', hds', hv'⟩ := ih hu hv
    refine ⟨ds ++ ds', v', ?_, hv'⟩
    rw [run_append, hds]
    exact hds'

/-- A count that each step raises by one is the length of the run. -/
theorem run_length {m : σ → Nat} (hstep : ∀ s e s', step s e = some s' → m s' = m s + 1) {es : List ε} {s s' : σ}
    (h : run step es s = some s') : m s' = m s + es.length := by
  induction es generalizing s with
  | nil => exact Option.some.inj h ▸ rfl
  | cons e es ih =>
    obtain ⟨t, he, ht⟩ := run_cons.1 h
    have hone := hstep s e t he
    have hrest := ih ht
    rw [List.length_cons]
    omega

/-- What does not hold before a run and holds after it becomes true at one of its
steps. -/
theorem run_first {I : σ → Prop} {es : List ε} {s s' : σ} (h : run step es s = some s') (hs : ¬ I s) (hs' : I s') :
    ∃ before e after t t', run step before s = some t ∧ ¬ I t ∧ step t e = some t' ∧ I t' ∧
      run step after t' = some s' := by
  induction es generalizing s with
  | nil => exact absurd (Option.some.inj h ▸ hs') hs
  | cons e es ih =>
    obtain ⟨t, he, ht⟩ := run_cons.1 h
    by_cases hI : I t
    · exact ⟨[], e, es, s, t, rfl, hs, he, hI, ht⟩
    · obtain ⟨before, e', after, u, u', hu, hnot, hstep, hI', hafter⟩ := ih ht hI
      exact ⟨e :: before, e', after, u, u', run_cons.2 ⟨t, he, hu⟩, hnot, hstep, hI', hafter⟩

end Run

end Z4jCelery.Lib
