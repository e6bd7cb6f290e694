import Mathlib.Data.List.Sort
import Mathlib.Data.List.Perm.Basic
import Mathlib.Order.Lattice
/-!
# Lists of values with keys

The last value of a list under a key, and lists in strictly ascending order of
their keys. Such a list is determined by its members.
-/

namespace Z4jCelery.Lib.Keyed

variable {α κ : Type}

/-! ## The last value under a key -/

section Last
variable [DecidableEq κ] (key : α → κ)

def last (l : List α) (k : κ) : Option α := l.reverse.find? fun a => key a = k

variable {key}

theorem last_eq_some {l : List α} {k : κ} {a : α} : last key l k = some a ↔
    key a = k ∧ ∃ before after, l = before ++ a :: after ∧ ∀ b ∈ after, key b ≠ k := by
  rw [last, List.find?_eq_some_iff_append]
  constructor
  · rintro ⟨ha, after, before, hl, hafter⟩
    refine ⟨by simpa using ha, before.reverse, after.reverse, ?_, ?_⟩
    · rw [← List.reverse_reverse l, hl]
      simp
    · intro b hb
      simpa using hafter b (List.mem_reverse.1 hb)
  · rintro ⟨ha, before, after, rfl, hafter⟩
    refine ⟨by simpa using ha, after.reverse, before.reverse, by simp, ?_⟩
    intro b hb
    simpa using hafter b (List.mem_reverse.1 hb)

theorem last_eq_none {l : List α} {k : κ} : last key l k = none ↔ k ∉ l.map key := by
  rw [last, List.find?_eq_none]
  simp only [List.mem_reverse, decide_eq_true_eq, List.mem_map, not_exists, not_and]

theorem mem_of_last {l : List α} {k : κ} {a : α} (h : last key l k = some a) : a ∈ l := by
  obtain ⟨-, before, after, rfl, -⟩ := last_eq_some.1 h
  simp

theorem last_isSome {l : List α} {k : κ} : (last key l k).isSome = true ↔ k ∈ l.map key := by
  rw [← not_iff_not, ← last_eq_none]
  cases last key l k <;> simp

/-- Where no key is repeated, the last value under a key is the only one. -/
theorem last_of_nodup {l : List α} (h : (l.map key).Nodup) {k : κ} {a : α} :
    last key l k = some a ↔ a ∈ l ∧ key a = k := by
  constructor
  · exact fun ha => ⟨mem_of_last ha, (last_eq_some.1 ha).1⟩
  · rintro ⟨ha, rfl⟩
    cases hb : last key l (key a) with
    | none => exact absurd (List.mem_map_of_mem ha) (last_eq_none.1 hb)
    | some b =>
      have hkey : key b = key a := (last_eq_some.1 hb).1
      rw [List.inj_on_of_nodup_map h (mem_of_last hb) ha hkey]

theorem last_perm {l l' : List α} (hl : l.Perm l') (h : (l.map key).Nodup) (k : κ) : last key l k = last key l' k := by
  have h' : (l'.map key).Nodup := (hl.map key).nodup_iff.1 h
  apply Option.ext
  intro a
  rw [last_of_nodup h, last_of_nodup h', hl.mem_iff]

end Last

/-! ## Ascending lists -/

section Ascending
variable [LinearOrder κ] {key : α → κ}

/-- In strictly ascending order of the keys. -/
def Ascending (key : α → κ) (l : List α) : Prop := (l.map key).Pairwise (· < ·)

theorem Ascending.nodup {l : List α} (h : Ascending key l) : (l.map key).Nodup := h.imp fun hlt => hlt.ne

/-- Two ascending lists with the same members are one list. -/
theorem Ascending.ext {l l' : List α} (h : Ascending key l) (h' : Ascending key l') (hmem : ∀ a, a ∈ l ↔ a ∈ l') :
    l = l' := by
  have hperm : l.Perm l' := (List.perm_ext_iff_of_nodup h.nodup.of_map h'.nodup.of_map).2 hmem
  have hasymm : ∀ a b, a ∈ l → b ∈ l' → key a < key b → key b < key a → a = b :=
    fun a b _ _ hab hba => absurd hba hab.asymm
  exact hperm.eq_of_pairwise hasymm (List.pairwise_map.1 h) (List.pairwise_map.1 h')

/-- Sorting by keys of which none is repeated. -/
theorem ascending_insertionSort {l : List α} (h : (l.map key).Nodup) :
    Ascending key (l.insertionSort fun a b => key a ≤ key b) := by
  have hsorted := List.pairwise_insertionSort (fun a b : α => key a ≤ key b) l
  have hnodup : ((l.insertionSort fun a b => key a ≤ key b).map key).Nodup :=
    ((List.perm_insertionSort _ l).map key).nodup_iff.2 h
  rw [Ascending, List.pairwise_map]
  exact (hsorted.and (List.pairwise_map.1 hnodup)).imp fun hab => lt_of_le_of_ne hab.1 hab.2

end Ascending

end Z4jCelery.Lib.Keyed
