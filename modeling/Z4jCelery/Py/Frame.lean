import Z4jCelery.Py.Effect
/-!
# Frame rules

What a statement can do to the state, whatever it returns or raises. A frame
is a preorder on states; a statement keeps it when every run of it does.
-/

namespace Z4jCelery.Py

/-- How far a statement may change the state. -/
structure Frame (σ : Type) where
  rel : σ → σ → Prop
  refl : ∀ s, rel s s
  trans : ∀ {s t u}, rel s t → rel t u → rel s u

variable {σ α β : Type} {F : Frame σ}

/-- Every run of `m` stays within the frame. -/
def Keeps (F : Frame σ) (m : PyM σ α) : Prop := ∀ s, F.rel s (final (m s))

theorem keeps_pure (a : α) : Keeps F (pure a : PyM σ α) := F.refl

theorem keeps_throw (e : Exn) : Keeps F (throw e : PyM σ α) := F.refl

theorem keeps_ofOutcome (r : Except Exn α) : Keeps F (ofOutcome r : PyM σ α) := by
  cases r with
  | ok a => exact keeps_pure a
  | error e => exact keeps_throw e

theorem keeps_modify {f : σ → σ} (h : ∀ s, F.rel s (f s)) : Keeps F (modify f : PyM σ Unit) := h

theorem keeps_bind {m : PyM σ α} {k : α → PyM σ β} (hm : Keeps F m) (hk : ∀ a, Keeps F (k a)) : Keeps F (m >>= k) := by
  intro s
  have h := hm s
  cases hs : m s with
  | ok a s' =>
    rw [hs] at h
    rw [bind_ok hs]
    exact F.trans h (hk a s')
  | error e s' =>
    rw [hs] at h
    rw [bind_error hs]
    exact h

theorem keeps_tryExcept {m : PyM σ α} {h : Exn → PyM σ α} (hm : Keeps F m) (hh : ∀ e, Keeps F (h e)) :
    Keeps F (tryExcept m h) := by
  intro s
  have hs := hm s
  rw [tryExcept]
  cases hr : m s with
  | ok a s' => rw [hr] at hs; exact hs
  | error e s' => rw [hr] at hs; exact F.trans hs (hh e s')

theorem keeps_withExit {m : PyM σ α} {f : PyM σ Unit} (hm : Keeps F m) (hf : Keeps F f) : Keeps F (withExit m f) := by
  intro s
  have hs := hm s
  rw [withExit]
  cases hr : m s with
  | ok a s' =>
    rw [hr] at hs
    have hx := F.trans hs (hf s')
    simp only
    cases he : f s' <;> rw [he] at hx <;> exact hx
  | error e s' =>
    rw [hr] at hs
    have hx := F.trans hs (hf s')
    simp only
    cases he : f s' <;> rw [he] at hx <;> exact hx

/-! ## What a statement returns -/

/-- Whatever `m` returns satisfies `P`. -/
def Returns (P : α → Prop) (m : PyM σ α) : Prop := ∀ s a s', m s = .ok a s' → P a

variable {P : α → Prop}

theorem returns_pure {a : α} (h : P a) : Returns P (pure a : PyM σ α) := by
  intro s b s' hb
  cases hb
  exact h

theorem returns_ofOutcome (r : Except Exn α) : Returns (fun a => r = .ok a) (ofOutcome r : PyM σ α) := by
  intro s a s' h
  cases r with
  | ok b => cases h; rfl
  | error e => cases h

theorem returns_bind_of {Q : β → Prop} {m : PyM σ β} {k : β → PyM σ α} (hm : Returns Q m)
    (h : ∀ a, Q a → Returns P (k a)) : Returns P (m >>= k) := by
  intro s b s' hb
  cases hs : m s with
  | ok a s'' =>
    rw [bind_ok hs] at hb
    exact h a (hm s a s'' hs) s'' b s' hb
  | error e s'' =>
    rw [bind_error hs] at hb
    cases hb

theorem returns_bind {m : PyM σ β} {k : β → PyM σ α} (h : ∀ a, Returns P (k a)) : Returns P (m >>= k) :=
  returns_bind_of (Q := fun _ => True) (fun _ _ _ _ => trivial) fun a _ => h a

theorem returns_tryExcept {m : PyM σ α} {h : Exn → PyM σ α} (hm : Returns P m) (hh : ∀ e, Returns P (h e)) :
    Returns P (tryExcept m h) := by
  intro s b s' hb
  rw [tryExcept] at hb
  cases hs : m s with
  | ok a s'' => rw [hs] at hb; cases hb; exact hm s b s' hs
  | error e s'' => rw [hs] at hb; exact hh e s'' b s' hb

theorem returns_withExit {m : PyM σ α} {f : PyM σ Unit} (hm : Returns P m) : Returns P (withExit m f) := by
  intro s b s' hb
  rw [withExit] at hb
  cases hs : m s with
  | ok a s'' =>
    rw [hs] at hb
    simp only at hb
    cases hf : f s'' with
    | ok u t => rw [hf] at hb; cases hb; exact hm s b s'' hs
    | error e t => rw [hf] at hb; cases hb
  | error e s'' =>
    rw [hs] at hb
    simp only at hb
    cases hf : f s'' <;> rw [hf] at hb <;> cases hb

end Z4jCelery.Py
