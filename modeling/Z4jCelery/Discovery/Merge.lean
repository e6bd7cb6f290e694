import Z4jCelery.Discovery.Runtime
import Z4jCelery.Lib.Keyed
/-!
# The merge as a union

`merge_discoveries` lists, in the order of the names, the last runtime
definition of every name, or else the last static one. Scanning again changes
nothing: what a merge lists is what it makes of itself.
-/

namespace Z4jCelery.Discovery

open Py Lib Z4jCelery.Core Keyed

variable {runtime static : List TaskDefinition}

/-- `d` is the last definition of its name. -/
def IsLast (l : List TaskDefinition) (d : TaskDefinition) : Prop :=
  ∃ before after, l = before ++ d :: after ∧ ∀ e ∈ after, e.name ≠ d.name

def names (l : List TaskDefinition) : List String := l.map TaskDefinition.name

/-- The definition that the merge lists under a name. -/
def chosen (runtime static : List TaskDefinition) (name : String) : Option TaskDefinition :=
  (last TaskDefinition.name runtime name).or (last TaskDefinition.name static name)

theorem isLast_iff {l : List TaskDefinition} {d : TaskDefinition} :
    IsLast l d ↔ last TaskDefinition.name l d.name = some d := by
  rw [last_eq_some, IsLast, and_iff_right rfl]

/-! ## What a merge lists -/

theorem get?_chosen (name : String) : (by_name runtime static).get? name = chosen runtime static name :=
  get?_by_name runtime static name

theorem mem_merge_chosen {d : TaskDefinition} :
    d ∈ merge_discoveries runtime static ↔ chosen runtime static d.name = some d := by
  rw [mem_merge, get?_chosen]

theorem merge_ascending (runtime static : List TaskDefinition) :
    Ascending TaskDefinition.name (merge_discoveries runtime static) := by
  have hperm := List.perm_insertionSort (fun d e : TaskDefinition => d.name ≤ e.name) (by_name runtime static).values
  exact ascending_insertionSort ((hperm.map TaskDefinition.name).nodup_iff.1 (merge_nodup runtime static))

theorem chosen_name {name : String} {d : TaskDefinition} (h : chosen runtime static name = some d) : d.name = name := by
  rw [chosen, Option.or_eq_some_iff] at h
  rcases h with h | ⟨-, h⟩ <;> exact (last_eq_some.1 h).1

theorem mem_names_merge {name : String} :
    name ∈ names (merge_discoveries runtime static) ↔ (chosen runtime static name).isSome = true := by
  rw [names, List.mem_map, Option.isSome_iff_exists]
  constructor
  · rintro ⟨d, hd, rfl⟩
    exact ⟨d, mem_merge_chosen.1 hd⟩
  · rintro ⟨d, hd⟩
    have hname := chosen_name hd
    exact ⟨d, mem_merge_chosen.2 (hname ▸ hd), hname⟩

/-- Merges that choose alike are one list. -/
theorem merge_congr {runtime' static' : List TaskDefinition}
    (h : ∀ name, chosen runtime static name = chosen runtime' static' name) :
    merge_discoveries runtime static = merge_discoveries runtime' static' := by
  apply (merge_ascending runtime static).ext (merge_ascending runtime' static')
  intro d
  rw [mem_merge_chosen, mem_merge_chosen, h]

/-- What a merge chooses under a name is what it lists under it. -/
theorem last_merge (name : String) :
    last TaskDefinition.name (merge_discoveries runtime static) name = chosen runtime static name := by
  apply Option.ext
  intro d
  rw [last_of_nodup (merge_nodup runtime static), mem_merge_chosen]
  constructor
  · rintro ⟨hd, rfl⟩
    exact hd
  · intro hd
    have hname := chosen_name hd
    exact ⟨hname ▸ hd, hname⟩

theorem merge_merge (runtime static : List TaskDefinition) :
    merge_discoveries (merge_discoveries runtime static) static = merge_discoveries runtime static := by
  apply merge_congr
  intro name
  rw [chosen, last_merge, chosen, Option.or_assoc, Option.or_self]

theorem merge_perm {runtime' static' : List TaskDefinition} (hr : runtime.Perm runtime') (hs : static.Perm static')
    (hnr : (names runtime).Nodup) (hns : (names static).Nodup) :
    merge_discoveries runtime static = merge_discoveries runtime' static' := by
  apply merge_congr
  intro name
  rw [chosen, chosen, last_perm hr hnr, last_perm hs hns]

/-- The names of a merge ascend, and are those of both lists; under a name it
lists the last runtime definition, or else the last static one. So the order of
lists that repeat no name does not matter, and merging again changes nothing. -/
theorem merge_is_union (runtime static : List TaskDefinition) :
    (names (merge_discoveries runtime static)).Pairwise (· < ·) ∧
    (∀ name, name ∈ names (merge_discoveries runtime static) ↔ name ∈ names runtime ∨ name ∈ names static) ∧
    (∀ d, d ∈ merge_discoveries runtime static ↔ IsLast runtime d ∨ d.name ∉ names runtime ∧ IsLast static d) ∧
    (∀ runtime' static', runtime.Perm runtime' → static.Perm static' → (names runtime).Nodup →
      (names static).Nodup → merge_discoveries runtime static = merge_discoveries runtime' static') ∧
    merge_discoveries (merge_discoveries runtime static) static = merge_discoveries runtime static := by
  refine ⟨merge_ascending runtime static, ?_, ?_, fun _ _ hr hs hnr hns => merge_perm hr hs hnr hns,
    merge_merge runtime static⟩
  · intro name
    rw [mem_names_merge, chosen, Option.isSome_or, Bool.or_eq_true, last_isSome, last_isSome, names, names]
  · intro d
    rw [mem_merge_chosen, chosen, Option.or_eq_some_iff, isLast_iff, last_eq_none, isLast_iff, names]

end Z4jCelery.Discovery
