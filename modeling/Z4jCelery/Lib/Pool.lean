import Mathlib.Data.List.Perm.Basic
import Mathlib.Data.List.Nodup
/-!
# A pool of workers

Jobs wait in line for one of `n` workers. A job that waits can be withdrawn; one
that a worker has started runs to its end. `Accounted` is what every operation
keeps: jobs start in the order they were submitted, each at most once, and a
withdrawn one never.
-/

namespace Z4jCelery.Lib

/-- The jobs in line and those that workers run; and all that were submitted,
started, ended and withdrawn, in order. -/
structure Pool (J : Type) (n : Nat) where
  waiting : List J
  running : List J
  submitted : List J
  started : List J
  ended : List J
  withdrawn : List J
  bounded : running.length ≤ n

namespace Pool
variable {J : Type} {n : Nat}

def empty : Pool J n := ⟨[], [], [], [], [], [], Nat.zero_le _⟩

/-- A worker that is free takes the first job in line. -/
def start (p : Pool J n) : Option (Pool J n) :=
  match p.waiting with
  | [] => none
  | j :: waiting =>
    if h : p.running.length < n then
      some { p with waiting := waiting, running := p.running ++ [j], started := p.started ++ [j],
                    bounded := by rw [List.length_append]; exact h }
    else none

variable [DecidableEq J]

/-- A job of its own for each call. -/
def submit (p : Pool J n) (j : J) : Option (Pool J n) :=
  if j ∈ p.submitted then none
  else some { p with waiting := p.waiting ++ [j], submitted := p.submitted ++ [j] }

def finish (p : Pool J n) (j : J) : Option (Pool J n) :=
  if j ∈ p.running then
    some { p with running := p.running.erase j, ended := p.ended ++ [j],
                  bounded := Nat.le_trans (List.length_erase_le) p.bounded }
  else none

/-- Cancelling a job that a worker has started does nothing. -/
def cancel (p : Pool J n) (j : J) : Pool J n :=
  if j ∈ p.waiting then { p with waiting := p.waiting.erase j, withdrawn := p.withdrawn ++ [j] } else p

/-! ## The books of the pool -/

structure Accounted (p : Pool J n) : Prop where
  fresh : p.submitted.Nodup
  in_order : (p.started ++ p.waiting).Sublist p.submitted
  placed : p.submitted.Perm (p.started ++ p.waiting ++ p.withdrawn)
  ran : p.started.Perm (p.running ++ p.ended)

variable {p p' : Pool J n} {j : J}

omit [DecidableEq J] in
theorem accounted_empty : (empty : Pool J n).Accounted := ⟨List.nodup_nil, .refl _, .refl _, .refl _⟩

omit [DecidableEq J] in
theorem start_cases (h : p.start = some p') : ∃ j waiting, p.waiting = j :: waiting ∧ p.running.length < n ∧
    p'.waiting = waiting ∧ p'.running = p.running ++ [j] ∧ p'.started = p.started ++ [j] ∧
    p'.submitted = p.submitted ∧ p'.ended = p.ended ∧ p'.withdrawn = p.withdrawn := by
  unfold start at h
  split at h
  · cases h
  · rename_i j waiting hw
    split at h
    · rename_i hlt
      obtain rfl := Option.some.inj h
      exact ⟨j, waiting, hw, hlt, rfl, rfl, rfl, rfl, rfl, rfl⟩
    · cases h

theorem submit_cases (h : p.submit j = some p') : j ∉ p.submitted ∧
    p' = { p with waiting := p.waiting ++ [j], submitted := p.submitted ++ [j] } := by
  unfold submit at h
  split at h
  · cases h
  · rename_i hj
    exact ⟨hj, (Option.some.inj h).symm⟩

theorem submit_fresh (h : j ∉ p.submitted) : ∃ p', p.submit j = some p' ∧ j ∈ p'.submitted :=
  ⟨_, if_neg h, List.mem_append_right _ (List.mem_singleton.2 rfl)⟩

theorem finish_cases (h : p.finish j = some p') : j ∈ p.running ∧ p'.running = p.running.erase j ∧
    p'.ended = p.ended ++ [j] ∧ p'.waiting = p.waiting ∧ p'.submitted = p.submitted ∧ p'.started = p.started ∧
    p'.withdrawn = p.withdrawn := by
  unfold finish at h
  split at h
  · rename_i hj
    obtain rfl := Option.some.inj h
    exact ⟨hj, rfl, rfl, rfl, rfl, rfl, rfl⟩
  · cases h

@[simp] theorem cancel_running : (p.cancel j).running = p.running := by unfold cancel; split <;> rfl
@[simp] theorem cancel_submitted : (p.cancel j).submitted = p.submitted := by unfold cancel; split <;> rfl
@[simp] theorem cancel_started : (p.cancel j).started = p.started := by unfold cancel; split <;> rfl
@[simp] theorem cancel_ended : (p.cancel j).ended = p.ended := by unfold cancel; split <;> rfl

theorem waiting_of_cancel {k : J} (h : k ∈ (p.cancel j).waiting) : k ∈ p.waiting := by
  unfold cancel at h
  split at h
  · exact List.mem_of_mem_erase h
  · exact h

theorem withdrawn_cancel {k : J} (h : k ∈ p.withdrawn) : k ∈ (p.cancel j).withdrawn := by
  unfold cancel
  split
  · exact List.mem_append_left _ h
  · exact h

theorem withdrawn_of_cancel {k : J} (h : k ∈ (p.cancel j).withdrawn) : k ∈ p.withdrawn ∨ k = j := by
  unfold cancel at h
  split at h
  · rcases List.mem_append.1 h with h | h
    · exact .inl h
    · exact .inr (List.mem_singleton.1 h)
  · exact .inl h

theorem not_waiting_cancel (h : p.waiting.Nodup) : j ∉ (p.cancel j).waiting := by
  unfold cancel
  split
  · exact h.not_mem_erase
  · assumption

namespace Accounted

omit [DecidableEq J] in
theorem start (h : p.Accounted) (hs : p.start = some p') : p'.Accounted := by
  obtain ⟨j, waiting, hw, -, hw', hr', hst', hsub', hend', hwd'⟩ := start_cases hs
  have hline : p'.started ++ p'.waiting = p.started ++ p.waiting := by
    rw [hst', hw', hw, List.append_assoc, List.singleton_append]
  refine ⟨hsub' ▸ h.fresh, ?_, ?_, ?_⟩
  · rw [hline, hsub']
    exact h.in_order
  · rw [hline, hsub', hwd']
    exact h.placed
  · rw [hst', hr', hend', List.append_assoc]
    exact (h.ran.append_right [j]).trans (by
      rw [List.append_assoc]
      exact List.perm_append_comm.append_left p.running)

theorem submit (h : p.Accounted) (hs : p.submit j = some p') : p'.Accounted := by
  obtain ⟨hj, rfl⟩ := submit_cases hs
  refine ⟨?_, ?_, ?_, h.ran⟩
  · exact List.nodup_append.2 ⟨h.fresh, List.nodup_singleton j, fun a ha b hb => by
      rw [List.mem_singleton.1 hb]
      rintro rfl
      exact hj ha⟩
  · show (p.started ++ (p.waiting ++ [j])).Sublist (p.submitted ++ [j])
    rw [← List.append_assoc]
    exact h.in_order.append_right [j]
  · show (p.submitted ++ [j]).Perm (p.started ++ (p.waiting ++ [j]) ++ p.withdrawn)
    refine (h.placed.append_right [j]).trans ?_
    simp only [List.append_assoc]
    exact (List.perm_append_comm.append_left p.waiting).append_left p.started

theorem finish (h : p.Accounted) (hs : p.finish j = some p') : p'.Accounted := by
  obtain ⟨hj, hr', hend', hw', hsub', hst', hwd'⟩ := finish_cases hs
  refine ⟨hsub' ▸ h.fresh, ?_, ?_, ?_⟩
  · rw [hst', hw', hsub']
    exact h.in_order
  · rw [hst', hw', hsub', hwd']
    exact h.placed
  · rw [hst', hr', hend']
    refine h.ran.trans (((List.perm_cons_erase hj).append_right p.ended).trans ?_)
    rw [← List.append_assoc]
    exact @List.perm_append_comm _ [j] _

theorem cancel (h : p.Accounted) (j : J) : (p.cancel j).Accounted := by
  unfold Pool.cancel
  split
  · rename_i hj
    refine ⟨h.fresh, (List.erase_sublist.append_left p.started).trans h.in_order, h.placed.trans ?_, h.ran⟩
    show (p.started ++ p.waiting ++ p.withdrawn).Perm (p.started ++ p.waiting.erase j ++ (p.withdrawn ++ [j]))
    simp only [List.append_assoc]
    refine List.Perm.append_left p.started (((List.perm_cons_erase hj).append_right p.withdrawn).trans ?_)
    rw [← List.append_assoc (p.waiting.erase j)]
    exact @List.perm_append_comm _ [j] _
  · exact h

end Accounted

/-! ## What follows -/

omit [DecidableEq J] in
theorem Accounted.placed_nodup (h : p.Accounted) : (p.started ++ p.waiting ++ p.withdrawn).Nodup := h.placed.nodup_iff.1 h.fresh

omit [DecidableEq J] in
theorem Accounted.started_of_running (h : p.Accounted) (hj : j ∈ p.running) : j ∈ p.started :=
  h.ran.mem_iff.2 (List.mem_append_left _ hj)

omit [DecidableEq J] in
theorem Accounted.submitted_of_started (h : p.Accounted) (hj : j ∈ p.started) : j ∈ p.submitted :=
  h.in_order.subset (List.mem_append_left _ hj)

omit [DecidableEq J] in
/-- A job that has not started waits or was withdrawn. -/
theorem Accounted.not_started (h : p.Accounted) (hj : j ∈ p.submitted) (hnot : j ∉ p.started) :
    j ∈ p.waiting ∨ j ∈ p.withdrawn := by
  rcases List.mem_append.1 (h.placed.mem_iff.1 hj) with hj | hj
  · exact .inl ((List.mem_append.1 hj).resolve_left hnot)
  · exact .inr hj

omit [DecidableEq J] in
theorem Accounted.withdrawn_not_started (h : p.Accounted) (hj : j ∈ p.withdrawn) : j ∉ p.started := by
  intro hs
  have hdisjoint := (List.nodup_append.1 h.placed_nodup).2.2
  exact hdisjoint j (List.mem_append_left _ hs) j hj rfl

omit [DecidableEq J] in
theorem start_eq_none_of_full (h : p.running.length = n) : p.start = none := by
  unfold start
  split
  · rfl
  · rw [dif_neg (by omega)]

end Pool

end Z4jCelery.Lib
