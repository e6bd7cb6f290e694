import Z4jCelery.Py.Effect
/-!
# Loops

A computation with `while` loops is given a number of turns, and has no outcome
while one of its loops needs more. `Steady` says that more turns do not change
an outcome, `Ends` that some number is enough.
-/

namespace Z4jCelery.Py

/-- A computation whose loops take at most so many turns: `none` while one of
them runs. -/
abbrev LoopM := ExceptT Exn Option

variable {α β : Type}

/-- An outcome without loops. -/
def LoopM.of (r : Except Exn α) : LoopM α := ExceptT.mk (some r)

@[simp] theorem LoopM.of_run (r : Except Exn α) : (LoopM.of r).run = some r := rfl
@[simp] theorem LoopM.pure_run (a : α) : (pure a : LoopM α).run = some (.ok a) := rfl

theorem LoopM.bind_eq_ok {m : LoopM α} {k : α → LoopM β} {b : β} :
    (m >>= k).run = some (.ok b) ↔ ∃ a, m.run = some (.ok a) ∧ (k a).run = some (.ok b) := by
  rw [ExceptT.run_bind]
  rcases m.run with _ | _ | a <;> simp

theorem LoopM.bind_eq_none {m : LoopM α} {k : α → LoopM β} :
    (m >>= k).run = none ↔ m.run = none ∨ ∃ a, m.run = some (.ok a) ∧ (k a).run = none := by
  rw [ExceptT.run_bind]
  rcases m.run with _ | _ | a <;> simp

theorem LoopM.bind_run_error {m : LoopM α} (k : α → LoopM β) {e : Exn} (h : m.run = some (.error e)) :
    (m >>= k).run = some (.error e) := by
  rw [ExceptT.run_bind, h]
  rfl

theorem LoopM.bind_run_ok {m : LoopM α} (k : α → LoopM β) {a : α} (h : m.run = some (.ok a)) :
    (m >>= k).run = (k a).run := by
  rw [ExceptT.run_bind, h]
  rfl

/-- `try: m` / `except Exception: h`, for loops. -/
theorem LoopM.catch_run (m : LoopM α) (h : Exn → LoopM α) :
    (tryCatch m h).run = match m.run with
      | none => none
      | some (.ok a) => some (.ok a)
      | some (.error e) => (h e).run := by
  show Option.bind m.run _ = _
  rcases m.run with _ | _ | a <;> rfl

/-! ## Turns -/

/-- More turns do not change an outcome. -/
def Steady (m : Nat → LoopM α) : Prop := ∀ n n' r, n ≤ n' → (m n).run = some r → (m n').run = some r

/-- Some number of turns is enough. -/
def Ends (m : Nat → LoopM α) : Prop := ∃ n r, (m n).run = some r

variable {m : Nat → LoopM α} {k : Nat → α → LoopM β}

theorem Steady.const (x : LoopM α) : Steady fun _ => x := fun _ _ _ _ h => h

theorem Steady.unique (hm : Steady m) {n n' : Nat} {r r' : Except Exn α} (h : (m n).run = some r)
    (h' : (m n').run = some r') : r = r' := by
  have hr : (m (max n n')).run = some r := hm n _ r (by omega) h
  have hr' : (m (max n n')).run = some r' := hm n' _ r' (by omega) h'
  exact Option.some.inj (hr.symm.trans hr')

theorem Steady.bind (hm : Steady m) (hk : ∀ a, Steady fun n => k n a) : Steady fun n => m n >>= k n := by
  intro n n' r hle h
  rcases hrun : (m n).run with _ | e | a
  · rw [ExceptT.run_bind, hrun] at h
    cases h
  · rw [LoopM.bind_run_error _ hrun] at h
    rw [LoopM.bind_run_error _ (hm n n' _ hle hrun), h]
  · rw [LoopM.bind_run_ok _ hrun] at h
    rw [LoopM.bind_run_ok _ (hm n n' _ hle hrun)]
    exact hk a n n' r hle h

theorem Steady.catch {h : Exn → LoopM α} (hm : Steady m) : Steady fun n => tryCatch (m n) h := by
  intro n n' r hle hr
  rw [LoopM.catch_run] at hr ⊢
  rcases hrun : (m n).run with _ | e | a
  · rw [hrun] at hr
    cases hr
  · rw [hrun] at hr
    rw [hm n n' _ hle hrun]
    exact hr
  · rw [hrun] at hr
    rw [hm n n' _ hle hrun]
    exact hr

theorem Ends.const (r : Except Exn α) : Ends fun _ => LoopM.of r := ⟨0, r, rfl⟩

theorem Ends.bind (hm : Steady m) (hk : ∀ a, Steady fun n => k n a) (h : Ends m) (h' : ∀ a, Ends fun n => k n a) :
    Ends fun n => m n >>= k n := by
  obtain ⟨n, e | a, hn⟩ := h
  · exact ⟨n, .error e, LoopM.bind_run_error _ hn⟩
  · obtain ⟨n', r, hn'⟩ := h' a
    refine ⟨max n n', r, ?_⟩
    rw [LoopM.bind_run_ok _ (hm n _ _ (by omega) hn)]
    exact hk a n' _ r (by omega) hn'

theorem Ends.left (h : Ends fun n => m n >>= k n) : Ends m := by
  obtain ⟨n, r, hn⟩ := h
  rcases hrun : (m n).run with _ | r'
  · have hnone : (m n >>= k n).run = none := LoopM.bind_eq_none.2 (.inl hrun)
    rw [hnone] at hn
    cases hn
  · exact ⟨n, r', hrun⟩

/-- A computation that ends either way does not run for ever. -/
theorem ends_iff : Ends m ↔ ¬∀ n, (m n).run = none := by
  rw [not_forall]
  apply exists_congr
  intro n
  rw [← Option.ne_none_iff_exists']

/-- With a handler that does not loop. -/
theorem Ends.catch {h : Exn → Except Exn α} (hm : Ends m) :
    Ends fun n => tryCatch (m n) fun e => LoopM.of (h e) := by
  obtain ⟨n, e | a, hn⟩ := hm
  · exact ⟨n, h e, by rw [LoopM.catch_run, hn]; rfl⟩
  · exact ⟨n, .ok a, by rw [LoopM.catch_run, hn]⟩

end Z4jCelery.Py
