import Z4jCelery.Py.Effect
/-!
# Two runs of a statement

From related states two statements have the same outcome, and leave related
states: what an observer of the relation sees of the two runs is the same.
-/

namespace Z4jCelery.Py

variable {σ α β : Type} {R : σ → σ → Prop}

/-- The runs of `m` from `s` and of `m'` from `s'` have one outcome, and end in
related states. -/
def RunsRelated (R : σ → σ → Prop) (m m' : PyM σ α) (s s' : σ) : Prop :=
  outcome (m s) = outcome (m' s') ∧ R (final (m s)) (final (m' s'))

def Related (R : σ → σ → Prop) (m m' : PyM σ α) : Prop := ∀ s s', R s s' → RunsRelated R m m' s s'

variable {m m' : PyM σ α} {s s' : σ}

/-- Two runs with one outcome both return, or both raise. -/
theorem RunsRelated.cases (h : RunsRelated R m m' s s') :
    (∃ a t t', m s = .ok a t ∧ m' s' = .ok a t' ∧ R t t') ∨
      ∃ e t t', m s = .error e t ∧ m' s' = .error e t' ∧ R t t' := by
  obtain ⟨hout, hfin⟩ := h
  cases hm : m s with
  | ok a t =>
    cases hm' : m' s' with
    | ok a' t' =>
      rw [hm, hm'] at hout hfin
      cases hout
      exact .inl ⟨a, t, t', rfl, rfl, hfin⟩
    | error e' t' => rw [hm, hm'] at hout; cases hout
  | error e t =>
    cases hm' : m' s' with
    | ok a' t' => rw [hm, hm'] at hout; cases hout
    | error e' t' =>
      rw [hm, hm'] at hout hfin
      cases hout
      exact .inr ⟨e, t, t', rfl, rfl, hfin⟩

theorem RunsRelated.bind {k k' : α → PyM σ β} (hm : RunsRelated R m m' s s')
    (hk : ∀ a, Related R (k a) (k' a)) : RunsRelated R (m >>= k) (m' >>= k') s s' := by
  rw [RunsRelated]
  rcases hm.cases with ⟨a, t, t', h, h', hr⟩ | ⟨e, t, t', h, h', hr⟩
  · rw [bind_ok h, bind_ok h']
    exact hk a t t' hr
  · rw [bind_error h, bind_error h']
    exact ⟨rfl, hr⟩

theorem RunsRelated.tryExcept {k k' : Exn → PyM σ α} (hm : RunsRelated R m m' s s')
    (hk : ∀ e, Related R (k e) (k' e)) : RunsRelated R (tryExcept m k) (tryExcept m' k') s s' := by
  rw [RunsRelated]
  rcases hm.cases with ⟨a, t, t', h, h', hr⟩ | ⟨e, t, t', h, h', hr⟩
  · rw [tryExcept_ok h, tryExcept_ok h']
    exact ⟨rfl, hr⟩
  · rw [tryExcept_error h, tryExcept_error h']
    exact hk e t t' hr

theorem related_pure (a : α) : Related R (pure a : PyM σ α) (pure a) := fun _ _ h => ⟨rfl, h⟩

theorem related_throw (e : Exn) : Related R (throw e : PyM σ α) (throw e) := fun _ _ h => ⟨rfl, h⟩

theorem related_ofOutcome (r : Except Exn α) : Related R (ofOutcome r : PyM σ α) (ofOutcome r) := by
  cases r with
  | ok a => exact related_pure a
  | error e => exact related_throw e

theorem related_modify {f f' : σ → σ} (h : ∀ s s', R s s' → R (f s) (f' s')) :
    Related R (modify f : PyM σ Unit) (modify f') := fun s s' hs => ⟨rfl, h s s' hs⟩

theorem related_bind {k k' : α → PyM σ β} (hm : Related R m m') (hk : ∀ a, Related R (k a) (k' a)) :
    Related R (m >>= k) (m' >>= k') := fun s s' hs => (hm s s' hs).bind hk

theorem related_tryExcept {k k' : Exn → PyM σ α} (hm : Related R m m') (hk : ∀ e, Related R (k e) (k' e)) :
    Related R (tryExcept m k) (tryExcept m' k') := fun s s' hs => (hm s s' hs).tryExcept hk

end Z4jCelery.Py
