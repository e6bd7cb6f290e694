import Mathlib.Data.List.Nodup
import Mathlib.Data.List.Dedup
import Mathlib.Data.List.Induction
/-!
# Dictionaries in insertion order

A dictionary that remembers the order of its keys, as a list of items with
unique keys. `set` replaces in place or appends; `moveToEnd` and `erase` are
what an ordered dictionary adds.
-/

namespace Z4jCelery.Lib

/-- A dictionary: its items, oldest first, no key twice. -/
structure Dict (κ ν : Type) where
  items : List (κ × ν)
  nodup : (items.map Prod.fst).Nodup

namespace Dict
variable {κ ν : Type}

def empty : Dict κ ν := ⟨[], List.nodup_nil⟩

def keys (d : Dict κ ν) : List κ := d.items.map Prod.fst

def values (d : Dict κ ν) : List ν := d.items.map Prod.snd

def length (d : Dict κ ν) : Nat := d.items.length

theorem keys_nodup (d : Dict κ ν) : d.keys.Nodup := d.nodup

@[simp] theorem keys_length (d : Dict κ ν) : d.keys.length = d.length := by simp [keys, length]

theorem ext_items {d e : Dict κ ν} (h : d.items = e.items) : d = e := by
  cases d; cases e; simp_all

variable [DecidableEq κ]

/-- The items without key `k`. -/
def without (k : κ) (l : List (κ × ν)) : List (κ × ν) := l.filter (fun kv => kv.1 ≠ k)

/-- The items with `v` under `k`: in place, or appended. -/
def upsertItems (k : κ) (v : ν) : List (κ × ν) → List (κ × ν)
  | [] => [(k, v)]
  | kv :: l => if kv.1 = k then (k, v) :: l else kv :: upsertItems k v l

theorem keys_upsertItems (k : κ) (v : ν) (l : List (κ × ν)) :
    (upsertItems k v l).map Prod.fst = if k ∈ l.map Prod.fst then l.map Prod.fst else l.map Prod.fst ++ [k] := by
  induction l with
  | nil => simp [upsertItems]
  | cons kv l ih =>
    by_cases hk : kv.1 = k
    · simp [upsertItems, hk]
    · have hk' : ¬ k = kv.1 := fun h => hk h.symm
      simp only [upsertItems, hk, if_false, List.map_cons, ih, List.mem_cons, hk', false_or]
      split <;> simp

theorem upsertItems_of_notMem {k : κ} {v : ν} {l : List (κ × ν)} (h : k ∉ l.map Prod.fst) :
    upsertItems k v l = l ++ [(k, v)] := by
  induction l with
  | nil => rfl
  | cons kv l ih =>
    rw [List.map_cons, List.mem_cons, not_or] at h
    rw [upsertItems, if_neg (Ne.symm h.1), ih h.2, List.cons_append]

theorem keys_without (k : κ) (l : List (κ × ν)) :
    (without k l).map Prod.fst = (l.map Prod.fst).filter (fun x => x ≠ k) := by
  simp [without, List.filter_map, Function.comp_def]

theorem notMem_without (k : κ) (l : List (κ × ν)) : k ∉ (without k l).map Prod.fst := by
  simp [keys_without]

theorem without_eq_self {k : κ} {l : List (κ × ν)} (h : k ∉ l.map Prod.fst) : without k l = l := by
  rw [without, List.filter_eq_self]
  intro kv hkv
  simp only [ne_eq, decide_eq_true_eq]
  rintro rfl
  exact h (List.mem_map_of_mem hkv)

theorem nodup_snoc {k : κ} {v : ν} {l : List (κ × ν)} (hl : (l.map Prod.fst).Nodup) :
    ((without k l ++ [(k, v)]).map Prod.fst).Nodup := by
  rw [List.map_append, List.nodup_append]
  refine ⟨?_, by simp, ?_⟩
  · rw [keys_without]; exact hl.filter _
  · intro a ha b hb
    simp only [List.map_cons, List.map_nil, List.mem_singleton] at hb
    subst hb
    rintro rfl
    exact notMem_without _ l ha

/-- `d.get(k)`. -/
def get? (d : Dict κ ν) (k : κ) : Option ν := (d.items.find? (fun kv => kv.1 = k)).map Prod.snd

/-- `k in d`. -/
def contains (d : Dict κ ν) (k : κ) : Bool := decide (k ∈ d.keys)

/-- `d[k] = v`. -/
def set (d : Dict κ ν) (k : κ) (v : ν) : Dict κ ν where
  items := upsertItems k v d.items
  nodup := by
    rw [keys_upsertItems]
    split
    · exact d.nodup
    · rename_i h
      rw [List.nodup_append]
      exact ⟨d.nodup, by simp, fun a ha b hb hab => h (by rw [List.mem_singleton] at hb; exact hb ▸ hab ▸ ha)⟩

/-- `d.pop(k, None)`. -/
def erase (d : Dict κ ν) (k : κ) : Dict κ ν where
  items := without k d.items
  nodup := by rw [keys_without]; exact d.nodup.filter _

/-- `d.move_to_end(k)`; nothing when `k` is absent. -/
def moveToEnd (d : Dict κ ν) (k : κ) : Dict κ ν :=
  match d.get? k with
  | none => d
  | some v => ⟨without k d.items ++ [(k, v)], nodup_snoc d.nodup⟩

/-! ## Reading back -/

theorem find_iff {l : List (κ × ν)} (hl : (l.map Prod.fst).Nodup) (k : κ) (v : ν) :
    (l.find? (fun kv => kv.1 = k)).map Prod.snd = some v ↔ (k, v) ∈ l := by
  induction l with
  | nil => simp
  | cons kv l ih =>
    obtain ⟨a, b⟩ := kv
    simp only [List.map_cons, List.nodup_cons] at hl
    by_cases hk : a = k
    · subst hk
      simp only [decide_true, List.find?_cons_of_pos, Option.map_some, Option.some.injEq, List.mem_cons,
        Prod.mk.injEq, true_and]
      constructor
      · rintro rfl; exact .inl rfl
      · rintro (h | h)
        · exact h.symm
        · exact absurd (List.mem_map_of_mem h) hl.1
    · rw [List.find?_cons_of_neg (by simpa using hk), ih hl.2]
      simp [Ne.symm hk]

theorem get?_eq_some (d : Dict κ ν) (k : κ) (v : ν) : d.get? k = some v ↔ (k, v) ∈ d.items :=
  find_iff d.nodup k v

theorem get?_eq_none (d : Dict κ ν) (k : κ) : d.get? k = none ↔ k ∉ d.keys := by
  simp only [get?, Option.map_eq_none_iff, List.find?_eq_none, keys, List.mem_map, not_exists, not_and,
    decide_eq_true_eq]

theorem get?_isSome (d : Dict κ ν) (k : κ) : (d.get? k).isSome = true ↔ k ∈ d.keys := by
  rw [← Option.ne_none_iff_isSome, ne_eq, get?_eq_none, not_not]

@[simp] theorem get?_empty (k : κ) : (empty : Dict κ ν).get? k = none := rfl

/-! ## `set` -/

theorem keys_set (d : Dict κ ν) (k : κ) (v : ν) :
    (d.set k v).keys = if k ∈ d.keys then d.keys else d.keys ++ [k] := keys_upsertItems k v d.items

theorem mem_keys_set (d : Dict κ ν) (k l : κ) (v : ν) : l ∈ (d.set k v).keys ↔ l = k ∨ l ∈ d.keys := by
  rw [keys_set]
  split
  · constructor
    · exact .inr
    · rintro (rfl | h) <;> assumption
  · simp [or_comm]

theorem mem_upsertItems {k : κ} {v : ν} {l : List (κ × ν)} (hl : (l.map Prod.fst).Nodup) (x : κ × ν) :
    x ∈ upsertItems k v l ↔ x = (k, v) ∨ (x ∈ l ∧ x.1 ≠ k) := by
  induction l with
  | nil => simp [upsertItems]
  | cons kv l ih =>
    simp only [List.map_cons, List.nodup_cons] at hl
    by_cases hk : kv.1 = k
    · simp only [upsertItems, hk, if_true, List.mem_cons]
      constructor
      · rintro (rfl | h)
        · exact .inl rfl
        · exact .inr ⟨.inr h, fun hx => hl.1 (hk ▸ hx ▸ List.mem_map_of_mem h)⟩
      · rintro (rfl | ⟨rfl | h, hx⟩)
        · exact .inl rfl
        · exact absurd hk hx
        · exact .inr h
    · simp only [upsertItems, hk, if_false, List.mem_cons, ih hl.2]
      constructor
      · rintro (rfl | rfl | ⟨h, hx⟩)
        · exact .inr ⟨.inl rfl, hk⟩
        · exact .inl rfl
        · exact .inr ⟨.inr h, hx⟩
      · rintro (rfl | ⟨rfl | h, hx⟩)
        · exact .inr (.inl rfl)
        · exact .inl rfl
        · exact .inr (.inr ⟨h, hx⟩)

theorem mem_items_set (d : Dict κ ν) (k : κ) (v : ν) (x : κ × ν) :
    x ∈ (d.set k v).items ↔ x = (k, v) ∨ (x ∈ d.items ∧ x.1 ≠ k) := mem_upsertItems d.nodup x

theorem get?_set (d : Dict κ ν) (k l : κ) (v : ν) : (d.set k v).get? l = if l = k then some v else d.get? l := by
  apply Option.ext
  intro w
  rw [get?_eq_some, mem_items_set]
  split
  · next h => simp [h, eq_comm]
  · next h => simp [h, get?_eq_some]

/-! ## A dictionary built item by item -/

/-- The values set one after another, each under its own key. -/
def setAll (key : ν → κ) (d : Dict κ ν) (vs : List ν) : Dict κ ν := vs.foldl (fun d v => d.set (key v) v) d

theorem setAll_snoc (key : ν → κ) (d : Dict κ ν) (vs : List ν) (v : ν) :
    d.setAll key (vs ++ [v]) = (d.setAll key vs).set (key v) v := by
  simp [setAll]

theorem setAll_append (key : ν → κ) (d : Dict κ ν) (vs ws : List ν) :
    d.setAll key (vs ++ ws) = (d.setAll key vs).setAll key ws := List.foldl_append

/-- The last value of a key stays. -/
theorem get?_setAll (key : ν → κ) (d : Dict κ ν) (vs : List ν) (k : κ) :
    (d.setAll key vs).get? k = (vs.reverse.find? fun v => key v = k).or (d.get? k) := by
  induction vs using List.reverseRecOn with
  | nil => rfl
  | append_singleton vs v ih =>
    rw [setAll_snoc, get?_set, List.reverse_append, List.reverse_singleton, List.singleton_append, List.find?_cons]
    by_cases h : key v = k
    · simp [h]
    · simp [h, Ne.symm h, ih]

theorem keys_setAll {key : ν → κ} {d : Dict κ ν} (hd : ∀ kv ∈ d.items, kv.1 = key kv.2) (vs : List ν) :
    ∀ kv ∈ (d.setAll key vs).items, kv.1 = key kv.2 := by
  induction vs using List.reverseRecOn with
  | nil => exact hd
  | append_singleton vs v ih =>
    intro kv hkv
    rw [setAll_snoc, mem_items_set] at hkv
    rcases hkv with rfl | ⟨hkv, _⟩
    · rfl
    · exact ih kv hkv

/-- The items set one after another. -/
def ofPairs (l : List (κ × ν)) : Dict κ ν := l.foldl (fun d kv => d.set kv.1 kv.2) empty

theorem ofPairs_snoc (l : List (κ × ν)) (k : κ) (v : ν) : ofPairs (l ++ [(k, v)]) = (ofPairs l).set k v := by
  simp [ofPairs]

theorem mem_keys_ofPairs (l : List (κ × ν)) (k : κ) : k ∈ (ofPairs l).keys ↔ k ∈ l.map Prod.fst := by
  induction l using List.reverseRecOn with
  | nil => rfl
  | append_singleton l kv ih => rw [ofPairs_snoc, mem_keys_set, ih]; simp [or_comm]

theorem length_ofPairs (l : List (κ × ν)) : (ofPairs l).length = (l.map Prod.fst).dedup.length := by
  rw [← keys_length]
  refine List.Perm.length_eq ((List.perm_ext_iff_of_nodup (keys_nodup _) (List.nodup_dedup _)).2 fun k => ?_)
  rw [mem_keys_ofPairs, List.mem_dedup]

theorem length_ofPairs_le (l : List (κ × ν)) : (ofPairs l).length ≤ l.length := by
  rw [length_ofPairs]
  simpa using (List.dedup_sublist (l.map Prod.fst)).length_le

/-- No item is lost exactly when no key comes twice. -/
theorem length_ofPairs_iff (l : List (κ × ν)) : (ofPairs l).length = l.length ↔ (l.map Prod.fst).Nodup := by
  rw [length_ofPairs]
  constructor
  · intro h
    have := (List.dedup_sublist (l.map Prod.fst)).eq_of_length (by simpa using h)
    exact this ▸ List.nodup_dedup _
  · intro h
    rw [h.dedup, List.length_map]

theorem items_ofPairs {l : List (κ × ν)} (h : (l.map Prod.fst).Nodup) : ∀ x ∈ l, x ∈ (ofPairs l).items := by
  induction l using List.reverseRecOn with
  | nil => simp
  | append_singleton l kv ih =>
    rw [List.map_append, List.nodup_append] at h
    intro x hx
    rw [ofPairs_snoc, mem_items_set]
    rcases List.mem_append.1 hx with hx | hx
    · exact .inr ⟨ih h.1 x hx, fun he => h.2.2 x.1 (List.mem_map_of_mem hx) kv.1 (by simp) he⟩
    · exact .inl (by simpa using hx)

/-! ## `moveToEnd` and `erase` -/

theorem items_moveToEnd {d : Dict κ ν} {k : κ} {v : ν} (h : d.get? k = some v) :
    (d.moveToEnd k).items = without k d.items ++ [(k, v)] := by
  rw [moveToEnd, h]

theorem moveToEnd_absent {d : Dict κ ν} {k : κ} (h : d.get? k = none) : d.moveToEnd k = d := by
  rw [moveToEnd, h]

theorem mem_without {k : κ} {l : List (κ × ν)} {x : κ × ν} : x ∈ without k l ↔ x ∈ l ∧ x.1 ≠ k := by
  simp [without]

theorem mem_items_moveToEnd (d : Dict κ ν) (k : κ) (x : κ × ν) : x ∈ (d.moveToEnd k).items ↔ x ∈ d.items := by
  cases h : d.get? k with
  | none => rw [moveToEnd_absent h]
  | some v =>
    rw [items_moveToEnd h, List.mem_append, mem_without, List.mem_singleton]
    have hkv := (get?_eq_some d k v).1 h
    constructor
    · rintro (⟨hx, -⟩ | rfl)
      · exact hx
      · exact hkv
    · intro hx
      by_cases hk : x.1 = k
      · right
        obtain ⟨a, b⟩ := x
        simp only at hk
        subst hk
        have := (get?_eq_some d a b).2 hx
        rw [h] at this
        simpa using this.symm
      · exact .inl ⟨hx, hk⟩

@[simp] theorem get?_moveToEnd (d : Dict κ ν) (k l : κ) : (d.moveToEnd k).get? l = d.get? l := by
  apply Option.ext
  intro v
  rw [get?_eq_some, get?_eq_some, mem_items_moveToEnd]

/-- Touching `k` and then storing under it leaves `k` last, whether or not it
was there. -/
theorem items_touch_set (d : Dict κ ν) (k : κ) (v : ν) :
    ((if d.contains k then d.moveToEnd k else d).set k v).items = without k d.items ++ [(k, v)] := by
  have snoc : ∀ (l : List (κ × ν)) w, k ∉ l.map Prod.fst → upsertItems k v (l ++ [(k, w)]) = l ++ [(k, v)] := by
    intro l w hl
    induction l with
    | nil => simp [upsertItems]
    | cons kv l ih =>
      simp only [List.map_cons, List.mem_cons, not_or] at hl
      simp [upsertItems, Ne.symm hl.1, ih hl.2]
  have fresh : ∀ l : List (κ × ν), k ∉ l.map Prod.fst → upsertItems k v l = l ++ [(k, v)] := by
    intro l hl
    induction l with
    | nil => rfl
    | cons kv l ih =>
      simp only [List.map_cons, List.mem_cons, not_or] at hl
      simp [upsertItems, Ne.symm hl.1, ih hl.2]
  -- a key that was there is moved first and then replaced in place
  by_cases hk : k ∈ d.keys
  · obtain ⟨w, hw⟩ := Option.isSome_iff_exists.1 ((get?_isSome d k).2 hk)
    rw [if_pos (by simpa [contains] using hk)]
    show upsertItems k v (d.moveToEnd k).items = _
    rw [items_moveToEnd hw]
    exact snoc _ w (notMem_without k d.items)
  · rw [if_neg (by simpa [contains] using hk)]
    show upsertItems k v d.items = _
    rw [fresh d.items hk, without_eq_self hk]

theorem mem_items_erase (d : Dict κ ν) (k : κ) (x : κ × ν) : x ∈ (d.erase k).items ↔ x ∈ d.items ∧ x.1 ≠ k :=
  mem_without

theorem get?_erase_ne (d : Dict κ ν) {k l : κ} (h : l ≠ k) : (d.erase k).get? l = d.get? l := by
  apply Option.ext
  intro v
  rw [get?_eq_some, get?_eq_some, mem_items_erase]
  simp [h]

theorem get?_erase_self (d : Dict κ ν) (k : κ) : (d.erase k).get? k = none := by
  rw [get?_eq_none]
  exact notMem_without k d.items

end Dict

end Z4jCelery.Lib
