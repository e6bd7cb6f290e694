import Mathlib.Data.List.Basic
/-!
# Loops that climb

`while test a: b = f b a; a = up a`. The places above `a` are finitely many,
and the last of them is above itself (`Ascent`). The loop is then a walk over
these places: it ends at the first that fails the test (`climb_iff`), and never
when they all pass (`climb_passes`).
-/

namespace Z4jCelery.Lib.Climb

variable {α β ε : Type} (up : α → α) (test : α → Except ε Bool) (f : β → α → β)

/-- The loop, for at most `n` tests: `none` while it runs. -/
def climb : Nat → α → β → Option (Except ε β)
  | 0, _, _ => none
  | n + 1, a, b =>
    match test a with
    | .error e => some (.error e)
    | .ok false => some (.ok b)
    | .ok true => climb n (up a) (f b a)

/-- The places from `a` to the last, which is above itself. -/
inductive Ascent : α → List α → Prop where
  | last {a : α} (h : up a = a) : Ascent a [a]
  | next {a : α} {as : List α} (h : Ascent (up a) as) : Ascent a (a :: as)

/-- Where a walk over the places ends: `none` when they all pass. -/
def walk : List α → β → Option (Except ε β)
  | [], _ => none
  | a :: as, b =>
    match test a with
    | .error e => some (.error e)
    | .ok false => some (.ok b)
    | .ok true => walk as (f b a)

variable {up test f}

theorem climb_passes {a : α} {as : List α} (hup : Ascent up a as) (hpass : ∀ c ∈ as, test c = .ok true) :
    ∀ (n : Nat) (b : β), climb up test f n a b = none := by
  intro n
  induction n generalizing a as with
  | zero => intro b; rfl
  | succ n ih =>
    intro b
    have ha : test a = .ok true := by cases hup <;> exact hpass a (by simp)
    rw [climb, ha]
    cases hup with
    | last h => exact ih (by rw [h]; exact .last h) hpass _
    | next h => exact ih h (fun c hc => hpass c (by simp [hc])) _

theorem walk_eq_none {as : List α} {b : β} : walk test f as b = none ↔ ∀ c ∈ as, test c = .ok true := by
  induction as generalizing b with
  | nil => simp [walk]
  | cons a as ih =>
    rw [walk, List.forall_mem_cons]
    split <;> simp_all

theorem climb_of_walk {a : α} {as : List α} (hup : Ascent up a as) {b : β} {r : Except ε β}
    (h : walk test f as b = some r) : climb up test f as.length a b = some r := by
  induction hup generalizing b with
  | @last a hself =>
    rw [walk] at h
    rw [List.length_singleton, climb]
    split <;> simp_all [walk]
  | @next a as _ ih =>
    rw [walk] at h
    rw [List.length_cons, climb]
    split <;> simp_all

/-- More turns do not change how the loop ended. -/
theorem climb_mono {n m : Nat} (hle : n ≤ m) {a : α} {b : β} {r : Except ε β} (h : climb up test f n a b = some r) :
    climb up test f m a b = some r := by
  induction n generalizing m a b with
  | zero => simp [climb] at h
  | succ n ih =>
    obtain ⟨m, rfl⟩ : ∃ k, m = k + 1 := ⟨m - 1, by omega⟩
    rw [climb] at h ⊢
    split <;> simp_all

/-- The loop ends, and how, as a walk over the places above says. -/
theorem climb_iff {a : α} {as : List α} (hup : Ascent up a as) {b : β} {r : Except ε β} :
    (∃ n, climb up test f n a b = some r) ↔ walk test f as b = some r := by
  constructor
  · rintro ⟨n, hn⟩
    cases hw : walk test f as b with
    | none =>
      rw [climb_passes hup (walk_eq_none.1 hw)] at hn
      cases hn
    | some r' =>
      have hr' : climb up test f (max n as.length) a b = some r' :=
        climb_mono (by omega) (climb_of_walk hup hw)
      exact hr'.symm.trans (climb_mono (by omega) hn)
  · exact fun h => ⟨as.length, climb_of_walk hup h⟩

/-- The loop never ends exactly when all the places pass. -/
theorem climb_never_iff {a : α} {as : List α} (hup : Ascent up a as) {b : β} :
    (∀ n, climb up test f n a b = none) ↔ ∀ c ∈ as, test c = .ok true := by
  constructor
  · intro h
    rw [← walk_eq_none (f := f) (b := b), Option.eq_none_iff_forall_ne_some]
    intro r hr
    obtain ⟨n, hn⟩ := (climb_iff hup).2 hr
    simp [h n] at hn
  · exact fun h n => climb_passes hup h n b

/-- A walk leaves at the first place that refuses, with what it gathered at
the places before it. -/
theorem walk_eq_ok {as : List α} {b c : β} :
    walk test f as b = some (.ok c) ↔
      ∃ run here rest, as = run ++ here :: rest ∧ (∀ a ∈ run, test a = .ok true) ∧ test here = .ok false ∧
        run.foldl f b = c := by
  induction as generalizing b with
  | nil => simp [walk]
  | cons a as ih =>
    rw [walk]
    constructor
    · intro h
      split at h
      · simp at h
      · next ha => exact ⟨[], a, as, rfl, by simp, ha, by simpa using h⟩
      · next ha =>
        obtain ⟨run, here, rest, rfl, hrun, hhere, rfl⟩ := ih.1 h
        exact ⟨a :: run, here, rest, rfl, by simpa [ha] using hrun, hhere, rfl⟩
    · rintro ⟨run, here, rest, has, hrun, hhere, rfl⟩
      cases run with
      | nil =>
        obtain ⟨rfl, rfl⟩ := List.cons.inj has
        rw [hhere, List.foldl_nil]
      | cons a' run =>
        obtain ⟨rfl, rfl⟩ := List.cons.inj has
        rw [hrun a (by simp)]
        exact ih.2 ⟨run, here, rest, rfl, fun p hp => hrun p (by simp [hp]), hhere, rfl⟩

end Z4jCelery.Lib.Climb
