import Z4jCelery.Lib.Dict
import Mathlib.Data.List.Perm.Subperm
/-!
# A bounded least-recently-used map

A dictionary of at most `N` keys whose oldest key leaves first. Storing a key
or hitting it makes it the newest; `pop` removes it. A history is the list of
operations, newest first.

`get?_sound`: what the map returns for a key is what was last stored under it,
and the key was not popped since. `get?_retained`, the stack-distance rule: a
key that was not popped since is still there as long as fewer than `N` distinct
other keys were stored or hit since it last was.
-/

namespace Z4jCelery.Lib.Lru

open Dict

variable {κ ν : Type} [DecidableEq κ]

inductive Op (κ ν : Type) where
  | cache (k : κ) (v : ν)
  | hit (k : κ)
  | pop (k : κ)

/-- `while len(d) > N: d.popitem(last=False)`, on the items. -/
def trim (N : Nat) : List (κ × ν) → List (κ × ν)
  | [] => []
  | kv :: l => if N < l.length + 1 then trim N l else kv :: l

omit [DecidableEq κ] in
theorem trim_eq_drop (N : Nat) (l : List (κ × ν)) : trim N l = l.drop (l.length - N) := by
  induction l with
  | nil => simp [trim]
  | cons kv l ih =>
    rw [trim]
    split
    · rw [ih, List.length_cons, show l.length + 1 - N = l.length - N + 1 by omega, List.drop_succ_cons]
    · rw [List.length_cons, show l.length + 1 - N = 0 by omega, List.drop_zero]

def evict (N : Nat) (d : Dict κ ν) : Dict κ ν :=
  ⟨trim N d.items, by rw [trim_eq_drop]; exact d.nodup.sublist ((List.drop_sublist _ _).map _)⟩

/-- Store `v` under `k` as the newest key, then evict down to `N` keys. -/
def store (N : Nat) (d : Dict κ ν) (k : κ) (v : ν) : Dict κ ν :=
  evict N ((if d.contains k then d.moveToEnd k else d).set k v)

def apply (N : Nat) (d : Dict κ ν) : Op κ ν → Dict κ ν
  | .cache k v => store N d k v
  | .hit k => d.moveToEnd k
  | .pop k => d.erase k

/-- The map after a history, newest operation first. -/
def state (N : Nat) : List (Op κ ν) → Dict κ ν
  | [] => Dict.empty
  | o :: h => apply N (state N h) o

/-- Every hit found its key. -/
def Effective (N : Nat) : List (Op κ ν) → Prop
  | [] => True
  | .hit k :: h => k ∈ (state N h).keys ∧ Effective N h
  | .cache _ _ :: h => Effective N h
  | .pop _ :: h => Effective N h

/-- The value last stored under `u`, unless `u` was popped since. -/
def lastCached (u : κ) : List (Op κ ν) → Option ν
  | [] => none
  | .cache k v :: h => if k = u then some v else lastCached u h
  | .hit _ :: h => lastCached u h
  | .pop k :: h => if k = u then none else lastCached u h

/-- The other keys stored or hit since `u` was last stored or hit. -/
def othersSince (u : κ) : List (Op κ ν) → List κ
  | [] => []
  | .cache k _ :: h => if k = u then [] else k :: othersSince u h
  | .hit k :: h => if k = u then [] else k :: othersSince u h
  | .pop _ :: h => othersSince u h

/-! ## Size -/

omit [DecidableEq κ] in
theorem length_evict (N : Nat) (d : Dict κ ν) : (evict N d).length ≤ N := by
  show (trim N d.items).length ≤ N
  rw [trim_eq_drop, List.length_drop]
  omega

theorem length_moveToEnd (d : Dict κ ν) (k : κ) : (d.moveToEnd k).length = d.length := by
  have hp : (d.moveToEnd k).keys.Perm d.keys := by
    rw [List.perm_ext_iff_of_nodup (keys_nodup _) (keys_nodup _)]
    intro x
    rw [← get?_isSome, ← get?_isSome, get?_moveToEnd]
  rw [← keys_length, ← keys_length, hp.length_eq]

theorem length_erase_le (d : Dict κ ν) (k : κ) : (d.erase k).length ≤ d.length := List.length_filter_le _ _

theorem length_state (N : Nat) (h : List (Op κ ν)) : (state N h).length ≤ N := by
  induction h with
  | nil => exact Nat.zero_le N
  | cons o h ih =>
    cases o with
    | cache k v => exact length_evict N _
    | hit k => exact Nat.le_trans (Nat.le_of_eq (length_moveToEnd _ k)) ih
    | pop k => exact Nat.le_trans (length_erase_le _ k) ih

/-! ## What the map returns -/

theorem items_store (N : Nat) (d : Dict κ ν) (k : κ) (v : ν) :
    (store N d k v).items = trim N (without k d.items ++ [(k, v)]) := by
  show trim N _ = _
  rw [items_touch_set]

theorem mem_items_store {N : Nat} {d : Dict κ ν} {k : κ} {v : ν} {x : κ × ν} (h : x ∈ (store N d k v).items) :
    x = (k, v) ∨ (x ∈ d.items ∧ x.1 ≠ k) := by
  rw [items_store, trim_eq_drop] at h
  rcases List.mem_append.1 (List.mem_of_mem_drop h) with h | h
  · exact .inr (mem_without.1 h)
  · exact .inl (List.mem_singleton.1 h)

theorem get?_sound {N : Nat} {h : List (Op κ ν)} {u : κ} {v : ν} (hg : (state N h).get? u = some v) :
    lastCached u h = some v := by
  induction h with
  | nil => simp [state] at hg
  | cons o h ih =>
    cases o with
    | cache k w =>
      rw [get?_eq_some] at hg
      -- what was just stored, or an older item that eviction left
      rcases mem_items_store hg with hx | ⟨hx, hk⟩
      · simp only [Prod.mk.injEq] at hx
        simp [lastCached, hx.1, hx.2]
      · rw [lastCached, if_neg (Ne.symm hk)]
        exact ih ((get?_eq_some _ _ _).2 hx)
    | hit k => exact ih (by simpa [state, apply] using hg)
    | pop k =>
      have hk : k ≠ u := by
        rintro rfl
        simp [state, apply, get?_erase_self] at hg
      rw [lastCached, if_neg hk]
      exact ih (by rwa [state, apply, get?_erase_ne _ (Ne.symm hk)] at hg)

/-! ## Other keys -/

/-- The key that an operation is about. -/
def Op.key : Op κ ν → κ
  | .cache k _ | .hit k | .pop k => k

/-- The other keys of a longer history are those there were, or keys of the
operations since. -/
theorem mem_othersSince_append {u k : κ} {ops h : List (Op κ ν)} (hk : k ∈ othersSince u (ops ++ h)) :
    (k ≠ u ∧ ∃ o ∈ ops, o.key = k) ∨ k ∈ othersSince u h := by
  induction ops with
  | nil => exact .inr hk
  | cons o ops ih =>
    have older : k ∈ othersSince u (ops ++ h) → (k ≠ u ∧ ∃ o' ∈ o :: ops, o'.key = k) ∨ k ∈ othersSince u h := by
      intro hk
      rcases ih hk with ⟨hne, o', ho', hkey⟩ | hold
      · exact .inl ⟨hne, o', List.mem_cons_of_mem _ ho', hkey⟩
      · exact .inr hold
    have newest : ∀ l, o.key = l → k ∈ (if l = u then [] else l :: othersSince u (ops ++ h)) →
        (k ≠ u ∧ ∃ o' ∈ o :: ops, o'.key = k) ∨ k ∈ othersSince u h := by
      intro l hl hk
      split at hk
      · cases hk
      · rename_i hne
        rcases List.mem_cons.1 hk with rfl | hk
        · exact .inl ⟨hne, o, List.mem_cons_self, hl⟩
        · exact older hk
    cases o with
    | cache l v => exact newest l rfl hk
    | hit l => exact newest l rfl hk
    | pop l => exact older hk

theorem lastCached_mem {u : κ} {h : List (Op κ ν)} {v : ν} (hv : lastCached u h = some v) : Op.cache u v ∈ h := by
  induction h with
  | nil => cases hv
  | cons o h ih =>
    cases o with
    | cache k w =>
      rw [lastCached] at hv
      split at hv
      · rename_i hk
        rw [hk, Option.some.inj hv]
        exact List.mem_cons_self
      · exact List.mem_cons_of_mem _ (ih hv)
    | hit k => exact List.mem_cons_of_mem _ (ih hv)
    | pop k =>
      rw [lastCached] at hv
      split at hv
      · cases hv
      · exact List.mem_cons_of_mem _ (ih hv)

/-- Every other key was stored once: a hit found it. -/
theorem othersSince_cached {N : Nat} {h : List (Op κ ν)} (he : Effective N h) {u k : κ} (hk : k ∈ othersSince u h) :
    ∃ v, Op.cache k v ∈ h := by
  induction h with
  | nil => cases hk
  | cons o h ih =>
    have older : Effective N h → k ∈ othersSince u h → ∃ v, Op.cache k v ∈ o :: h := by
      intro he hk
      obtain ⟨v, hv⟩ := ih he hk
      exact ⟨v, List.mem_cons_of_mem _ hv⟩
    cases o with
    | cache l v =>
      rw [othersSince] at hk
      split at hk
      · cases hk
      · rcases List.mem_cons.1 hk with rfl | hk
        · exact ⟨v, List.mem_cons_self⟩
        · exact older he hk
    | hit l =>
      rw [othersSince] at hk
      split at hk
      · cases hk
      · rcases List.mem_cons.1 hk with rfl | hk
        · obtain ⟨v, hv⟩ := Option.isSome_iff_exists.1 ((get?_isSome _ k).2 he.1)
          exact ⟨v, List.mem_cons_of_mem _ (lastCached_mem (get?_sound hv))⟩
        · exact older he.2 hk
    | pop l => exact older he hk

/-! ## Retention -/

/-- `u` holds `v`, and every newer key is one of `others`. -/
def Behind (l : List (κ × ν)) (u : κ) (v : ν) (others : List κ) : Prop :=
  ∃ A B, l = A ++ (u, v) :: B ∧ ∀ x ∈ B.map Prod.fst, x ∈ others

omit [DecidableEq κ] in
theorem Behind.mem {l : List (κ × ν)} {u : κ} {v : ν} {o : List κ} (h : Behind l u v o) : (u, v) ∈ l := by
  obtain ⟨A, B, rfl, -⟩ := h
  simp

omit [DecidableEq κ] in
theorem behind_last (l : List (κ × ν)) (u : κ) (v : ν) : Behind (l ++ [(u, v)]) u v [] :=
  ⟨l, [], rfl, by simp⟩

theorem Behind.without {l : List (κ × ν)} {u k : κ} {v : ν} {o : List κ} (h : Behind l u v o) (hk : k ≠ u) :
    Behind (without k l) u v o := by
  obtain ⟨A, B, rfl, hB⟩ := h
  refine ⟨Dict.without k A, Dict.without k B, by simp [Dict.without, Ne.symm hk], fun x hx => hB x ?_⟩
  rw [keys_without] at hx
  exact (List.mem_filter.1 hx).1

omit [DecidableEq κ] in
theorem Behind.snoc {l : List (κ × ν)} {u k : κ} {v w : ν} {o : List κ} (h : Behind l u v o) :
    Behind (l ++ [(k, w)]) u v (k :: o) := by
  obtain ⟨A, B, rfl, hB⟩ := h
  refine ⟨A, B ++ [(k, w)], by simp, fun x hx => ?_⟩
  rw [List.map_append, List.mem_append] at hx
  rcases hx with hx | hx
  · exact List.mem_cons_of_mem _ (hB x hx)
  · exact List.mem_cons.2 (.inl (by simpa using hx))

/-- Fewer than `N` distinct newer keys: eviction down to `N` keys keeps `u`. -/
theorem Behind.trim {l : List (κ × ν)} {u : κ} {v : ν} {o : List κ} {N : Nat} (h : Behind l u v o)
    (hl : (l.map Prod.fst).Nodup) (ho : o.dedup.length < N) : Behind (trim N l) u v o := by
  obtain ⟨A, B, rfl, hB⟩ := h
  have hBn : (B.map Prod.fst).Nodup := by
    rw [List.map_append, List.map_cons] at hl
    exact (List.nodup_cons.1 (List.nodup_append.1 hl).2.1).2
  -- the newer keys are distinct and all among `o`
  have hlen : B.length ≤ o.dedup.length := by
    have := (List.Nodup.subperm hBn (fun x hx => List.mem_dedup.2 (hB x hx))).length_le
    simpa using this
  refine ⟨A.drop (A.length + (B.length + 1) - N), B, ?_, hB⟩
  rw [trim_eq_drop, List.length_append, List.length_cons, List.drop_append_of_le_length (by omega)]

theorem dedup_cons_length_le (k : κ) (l : List κ) : l.dedup.length ≤ (k :: l).dedup.length := by
  by_cases hk : k ∈ l
  · exact Nat.le_of_eq (by rw [List.dedup_cons_of_mem hk])
  · rw [List.dedup_cons_of_notMem hk, List.length_cons]
    exact Nat.le_succ _

theorem behind_state {N : Nat} {h : List (Op κ ν)} (he : Effective N h) {u : κ} {v : ν}
    (hv : lastCached u h = some v) (ho : (othersSince u h).dedup.length < N) :
    Behind (state N h).items u v (othersSince u h) := by
  induction h with
  | nil => simp [lastCached] at hv
  | cons o h ih =>
    cases o with
    | cache k w =>
      rw [lastCached] at hv
      rw [othersSince] at ho ⊢
      have hnd : ((without k (state N h).items ++ [(k, w)]).map Prod.fst).Nodup := nodup_snoc (state N h).nodup
      show Behind (store N (state N h) k w).items u v _
      rw [items_store]
      -- `u` itself becomes the newest; another key becomes one more ahead of it
      by_cases hk : k = u
      · simp only [hk, if_true, Option.some.injEq] at hv ho ⊢
        subst hk hv
        exact (behind_last _ _ _).trim hnd ho
      · simp only [hk, if_false] at hv ho ⊢
        have hi := ih he hv (Nat.lt_of_le_of_lt (dedup_cons_length_le k _) ho)
        exact ((hi.without hk).snoc).trim hnd ho
    | hit k =>
      -- a hit found its key, so `moveToEnd` moves it
      obtain ⟨hmem, he⟩ := he
      obtain ⟨w, hw⟩ := Option.isSome_iff_exists.1 ((get?_isSome _ k).2 hmem)
      rw [lastCached] at hv
      rw [othersSince] at ho ⊢
      show Behind ((state N h).moveToEnd k).items u v _
      rw [items_moveToEnd hw]
      by_cases hk : k = u
      · subst hk
        have hvw : w = v := by
          have := get?_sound hw
          rw [hv] at this
          exact (Option.some.inj this).symm
        subst hvw
        rw [if_pos rfl]
        exact behind_last _ _ _
      · simp only [hk, if_false] at ho ⊢
        exact ((ih he hv (Nat.lt_of_le_of_lt (dedup_cons_length_le k _) ho)).without hk).snoc
    | pop k =>
      rw [lastCached] at hv
      split at hv
      · cases hv
      · rename_i hk
        exact (ih he hv ho).without hk

theorem get?_retained {N : Nat} {h : List (Op κ ν)} (he : Effective N h) {u : κ} {v : ν}
    (hv : lastCached u h = some v) (ho : (othersSince u h).dedup.length < N) : (state N h).get? u = some v :=
  (get?_eq_some _ _ _).2 (behind_state he hv ho).mem

/-! ## One key among others -/

/-- What the map returns for a key that at most `N - 1` others surround. -/
theorem get?_eq_lastCached {N : Nat} {h : List (Op κ ν)} (he : Effective N h) {u : κ}
    (ho : (othersSince u h).dedup.length < N) : (state N h).get? u = lastCached u h := by
  cases hc : lastCached u h with
  | some v => exact get?_retained he hc ho
  | none =>
    cases hg : (state N h).get? u with
    | none => rfl
    | some v =>
      rw [get?_sound hg] at hc
      cases hc

theorem lastCached_append {u : κ} {ops : List (Op κ ν)} (hops : ∀ o ∈ ops, o.key ≠ u) (h : List (Op κ ν)) :
    lastCached u (ops ++ h) = lastCached u h := by
  induction ops with
  | nil => rfl
  | cons o ops ih =>
    have ho := hops o List.mem_cons_self
    have ih' := ih fun o' ho' => hops o' (List.mem_cons_of_mem _ ho')
    cases o with
    | cache k v => exact (if_neg ho).trans ih'
    | hit k => exact ih'
    | pop k => exact (if_neg ho).trans ih'

/-- A history on the keys of `K` has fewer than `N` others, if `K` has `N`. -/
theorem othersSince_lt {N : Nat} {h : List (Op κ ν)} {K : List κ} (hK : ∀ o ∈ h, o.key ∈ K) (hN : K.dedup.length ≤ N)
    {u : κ} (hu : u ∈ K) : (othersSince u h).dedup.length < N := by
  have hsub : (othersSince u h).dedup ⊆ K.dedup.erase u := by
    intro k hk
    rw [← List.append_nil h] at hk
    rcases mem_othersSince_append (List.mem_dedup.1 hk) with ⟨hne, o, ho, rfl⟩ | hk
    · exact (List.mem_erase_of_ne hne).2 (List.mem_dedup.2 (hK o ho))
    · cases hk
  have hlen := (List.subperm_of_subset (List.nodup_dedup _) hsub).length_le
  rw [List.length_erase_of_mem (List.mem_dedup.2 hu)] at hlen
  have hpos := List.length_pos_of_mem (List.mem_dedup.2 hu)
  omega

/-- What was just stored is there. -/
theorem get?_store_self {N : Nat} (hN : 0 < N) (d : Dict κ ν) (k : κ) (v : ν) : (store N d k v).get? k = some v := by
  rw [get?_eq_some, items_store, trim_eq_drop, List.length_append, List.length_singleton,
    List.drop_append_of_le_length (by omega)]
  exact List.mem_append_right _ (List.mem_singleton.2 rfl)

end Z4jCelery.Lib.Lru
