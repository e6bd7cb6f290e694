import Mathlib.Data.List.Basic
/-!
# An owner of one object at a time

A slot holds at most one of the objects that were ever created for it. Creating
an object replaces the one held, which is then out of reach: `leaked` says that
it stays as it is. As long as every live object is the one held (`Owned`), at
most one is live, and ending it leaves none.
-/

namespace Z4jCelery.Lib

variable {α : Type}

/-- The objects ever created, oldest first, and the one held. -/
structure Slot (α : Type) where
  arena : List α
  held : Option Nat

namespace Slot

def empty : Slot α := ⟨[], none⟩

/-- Create an object and hold it. -/
def create (s : Slot α) (a : α) : Slot α := ⟨s.arena ++ [a], some s.arena.length⟩

/-- The object held. -/
def get (s : Slot α) : Option α := s.held.bind fun i => s.arena[i]?

/-- Change the object held. -/
def put (s : Slot α) (a : α) : Slot α :=
  match s.held with
  | some i => ⟨s.arena.set i a, s.held⟩
  | none => s

def release (s : Slot α) : Slot α := { s with held := none }

@[simp] theorem get_create (s : Slot α) (a : α) : (s.create a).get = some a := by simp [get, create]

@[simp] theorem put_create (s : Slot α) (a b : α) : (s.create a).put b = s.create b := by simp [put, create]

theorem put_of_get_none {s : Slot α} (h : s.get = none) (a : α) : s.put a = s := by
  obtain ⟨arena, held⟩ := s
  cases held with
  | none => rfl
  | some i => exact congrArg (Slot.mk · (some i)) (List.set_eq_of_length_le (List.getElem?_eq_none_iff.1 h))

theorem release_of_held_none {s : Slot α} (h : s.held = none) : s.release = s := by
  obtain ⟨arena, held⟩ := s
  obtain rfl : held = none := h
  rfl

theorem get_of_held_none {s : Slot α} (h : s.held = none) : s.get = none := by rw [get, h, Option.bind_none]

variable (live : α → Prop)

def Live (s : Slot α) (i : Nat) : Prop := ∃ a, s.arena[i]? = some a ∧ live a

def Quiet (s : Slot α) : Prop := ∀ i, ¬ s.Live live i

def Owned (s : Slot α) : Prop := ∀ i, s.Live live i → s.held = some i

variable {live} {s : Slot α}

theorem quiet_empty : (empty : Slot α).Quiet live := by
  rintro i ⟨a, h, -⟩
  cases h

theorem Quiet.owned (h : s.Quiet live) : s.Owned live := fun i hi => absurd hi (h i)

theorem Owned.unique (h : s.Owned live) {i j : Nat} (hi : s.Live live i) (hj : s.Live live j) : i = j :=
  Option.some.inj ((h i hi).symm.trans (h j hj))

theorem live_create_self {a : α} : (s.create a).Live live s.arena.length ↔ live a := by
  rw [Live, create, List.getElem?_append_right (Nat.le_refl _), Nat.sub_self]
  simp

theorem live_create {a : α} {i : Nat} (hi : i ≠ s.arena.length) : (s.create a).Live live i ↔ s.Live live i := by
  rw [Live, Live, create]
  by_cases hlt : i < s.arena.length
  · rw [List.getElem?_append_left hlt]
  · rw [List.getElem?_eq_none (by simp; omega), List.getElem?_eq_none (by omega)]

theorem Live.lt {i : Nat} (h : s.Live live i) : i < s.arena.length := by
  obtain ⟨a, ha, -⟩ := h
  exact (List.getElem?_eq_some_iff.1 ha).1

/-- Where nothing is live, a new object is the only one that can be. -/
theorem Quiet.create (h : s.Quiet live) (a : α) : (s.create a).Owned live := by
  intro i hi
  by_cases he : i = s.arena.length
  · rw [he]; rfl
  · exact absurd ((live_create he).1 hi) (h i)

theorem live_put {a : α} {i : Nat} (hi : s.held ≠ some i) : (s.put a).Live live i ↔ s.Live live i := by
  rw [put]
  split
  · rename_i j hj
    have hne : j ≠ i := fun he => hi (hj.trans (congrArg some he))
    rw [Live, Live, List.getElem?_set_ne hne]
  · rfl

/-- What is not held is out of reach. -/
theorem leaked {i : Nat} (h : s.Live live i) (a b : α) : ((s.create a).put b).release.Live live i := by
  rw [put_create]
  exact (live_create (Nat.ne_of_lt h.lt)).2 h

theorem Live.release {i : Nat} (h : s.Live live i) : s.release.Live live i := h

theorem Quiet.release (h : s.Quiet live) : s.release.Quiet live := h

theorem Owned.put {a : α} (h : s.Owned live) : (s.put a).Owned live := by
  intro i hi
  have hheld : (s.put a).held = s.held := by
    rw [Slot.put]
    split <;> rfl
  rw [hheld]
  by_contra hne
  exact hne (h i ((live_put hne).1 hi))

/-- Ending the object held leaves nothing live. -/
theorem Owned.end {a : α} (h : s.Owned live) (ha : ¬ live a) : (s.put a).Quiet live := by
  intro i hi
  by_cases hheld : s.held = some i
  · rw [Slot.put, hheld, Live] at hi
    obtain ⟨b, hb, hlive⟩ := hi
    simp only [List.getElem?_set_self'] at hb
    cases hs : s.arena[i]? with
    | none => rw [hs] at hb; cases hb
    | some c =>
      rw [hs] at hb
      obtain rfl : a = b := Option.some.inj hb
      exact ha hlive
  · exact hheld (h i ((live_put hheld).1 hi))

end Slot

end Z4jCelery.Lib
