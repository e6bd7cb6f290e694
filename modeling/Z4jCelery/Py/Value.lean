import Z4jCelery.Lib.Dict
import Mathlib.Data.List.Basic
/-!
# Python values

The values the adapter passes around: JSON bodies, task arguments, attributes
of duck-typed Celery objects. A dictionary is its items in insertion order;
its keys are strings, as in every JSON object and keyword-argument dictionary.
-/

namespace Z4jCelery.Py

/-- A Python float: an exact rational, an infinity or NaN. -/
inductive PyFloat where
  | finite (q : Rat)
  | inf (neg : Bool)
  | nan
  deriving DecidableEq

/-- A Python value. `obj` is any other object, with its class name, its truth
value and an identity. -/
inductive Val where
  | none
  | bool (b : Bool)
  | int (i : Int)
  | float (x : PyFloat)
  | str (s : String)
  | tuple (xs : List Val)
  | list (xs : List Val)
  | dict (kvs : List (String × Val))
  | obj (cls : String) (truth : Bool) (id : Nat)

/-! ## Equality is decidable -/

mutual
def Val.beq : Val → Val → Bool
  | .none, .none => true
  | .bool a, .bool b => decide (a = b)
  | .int a, .int b => decide (a = b)
  | .float a, .float b => decide (a = b)
  | .str a, .str b => decide (a = b)
  | .tuple xs, .tuple ys => Val.beqList xs ys
  | .list xs, .list ys => Val.beqList xs ys
  | .dict xs, .dict ys => Val.beqItems xs ys
  | .obj c t i, .obj c' t' i' => decide (c = c' ∧ t = t' ∧ i = i')
  | _, _ => false
def Val.beqList : List Val → List Val → Bool
  | [], [] => true
  | x :: xs, y :: ys => Val.beq x y && Val.beqList xs ys
  | _, _ => false
def Val.beqItems : List (String × Val) → List (String × Val) → Bool
  | [], [] => true
  | (k, x) :: xs, (l, y) :: ys => decide (k = l) && Val.beq x y && Val.beqItems xs ys
  | _, _ => false
end

mutual
theorem Val.beq_iff : ∀ a b : Val, Val.beq a b = true ↔ a = b
  | .tuple xs, b => by cases b <;> simp [Val.beq, Val.beqList_iff xs]
  | .list xs, b => by cases b <;> simp [Val.beq, Val.beqList_iff xs]
  | .dict xs, b => by cases b <;> simp [Val.beq, Val.beqItems_iff xs]
  | .none, b => by cases b <;> simp [Val.beq]
  | .bool _, b => by cases b <;> simp [Val.beq]
  | .int _, b => by cases b <;> simp [Val.beq]
  | .float _, b => by cases b <;> simp [Val.beq]
  | .str _, b => by cases b <;> simp [Val.beq]
  | .obj _ _ _, b => by cases b <;> simp [Val.beq]
theorem Val.beqList_iff : ∀ xs ys : List Val, Val.beqList xs ys = true ↔ xs = ys
  | [], ys => by cases ys <;> simp [Val.beqList]
  | x :: xs, ys => by cases ys <;> simp [Val.beqList, Val.beq_iff x, Val.beqList_iff xs]
theorem Val.beqItems_iff : ∀ xs ys : List (String × Val), Val.beqItems xs ys = true ↔ xs = ys
  | [], ys => by cases ys <;> simp [Val.beqItems]
  | (k, x) :: xs, ys => by
    cases ys with
    | nil => simp [Val.beqItems]
    | cons y ys => obtain ⟨l, y⟩ := y; simp [Val.beqItems, Val.beq_iff x, Val.beqItems_iff xs]
end

instance : DecidableEq Val := fun a b => decidable_of_iff (Val.beq a b = true) (Val.beq_iff a b)

/-! ## Dictionary keys -/

mutual
/-- The key that a value is in a dictionary: `True`, `1` and `1.0` are one key.
Lists and dictionaries are not hashable. -/
def Val.key? : Val → Option Val
  | .none => some .none
  | .bool b => some (.int (if b then 1 else 0))
  | .int i => some (.int i)
  | .float (.finite q) => some (if q.den = 1 then .int q.num else .float (.finite q))
  | .float x => some (.float x)
  | .str s => some (.str s)
  | .tuple xs => (Val.keys? xs).map .tuple
  | .list _ => Option.none
  | .dict _ => Option.none
  | .obj c t i => some (.obj c t i)
def Val.keys? : List Val → Option (List Val)
  | [] => some []
  | x :: xs => match Val.key? x, Val.keys? xs with
    | some k, some ks => some (k :: ks)
    | _, _ => Option.none
end

@[simp] theorem Val.key?_str (s : String) : (Val.str s).key? = some (.str s) := by rw [Val.key?]

/-- Only a string is the key of a string. -/
theorem Val.key?_eq_str {v : Val} {s : String} : v.key? = some (.str s) ↔ v = .str s := by
  cases v with
  | float x =>
    cases x with
    | finite q => rw [Val.key?]; split <;> simp
    | inf n => simp [Val.key?]
    | nan => simp [Val.key?]
  | tuple xs => rw [Val.key?]; cases Val.keys? xs <;> simp
  | _ => simp [Val.key?]

/-! ## Truth and lookup -/

/-- `bool(v)`. -/
def Val.truthy : Val → Bool
  | .none => false
  | .bool b => b
  | .int i => decide (i ≠ 0)
  | .float x => decide (x ≠ .finite 0)
  | .str s => decide (s ≠ "")
  | .tuple xs | .list xs => !xs.isEmpty
  | .dict kvs => !kvs.isEmpty
  | .obj _ t _ => t

/-- `a or b`. -/
def Val.orElse (a b : Val) : Val := if a.truthy then a else b

/-- The entry of a dictionary's items under `k`. -/
def lookup {ν : Type} (k : String) : List (String × ν) → Option ν
  | [] => .none
  | (l, v) :: kvs => if l = k then some v else lookup k kvs

/-- `d.get(k, default)`. -/
def get (kvs : List (String × Val)) (k : String) (default : Val) : Val := (lookup k kvs).getD default

/-- `d.update(e)`, on the items. -/
def update (d e : List (String × Val)) : List (String × Val) :=
  e.foldl (fun d kv => Lib.Dict.upsertItems kv.1 kv.2 d) d

/-- A function on strings, on the values that are strings. -/
def Val.mapStr (f : String → String) : Val → Val
  | .str s => .str (f s)
  | v => v

/-- `isinstance(v, str)`, as the string. -/
def Val.str? : Val → Option String
  | .str s => some s
  | _ => .none

/-- `isinstance(v, int)`, as the integer: `bool` is a subclass of `int`. -/
def Val.int? : Val → Option Int
  | .int i => some i
  | .bool b => some (if b then 1 else 0)
  | _ => .none

/-- `isinstance(v, (list, tuple))`, as the elements. -/
def Val.seq? : Val → Option (List Val)
  | .list xs | .tuple xs => some xs
  | _ => .none

/-- `isinstance(v, dict)`, as the items. -/
def Val.dict? : Val → Option (List (String × Val))
  | .dict kvs => some kvs
  | _ => .none

@[simp] theorem Val.dict?_eq_some {v : Val} {kvs : List (String × Val)} : v.dict? = some kvs ↔ v = .dict kvs := by
  cases v <;> simp [Val.dict?]

@[simp] theorem truthy_str (s : String) : (Val.str s).truthy = decide (s ≠ "") := by simp [Val.truthy]

section Lookup
variable {ν : Type}

@[simp] theorem lookup_nil (k : String) : lookup k ([] : List (String × ν)) = .none := rfl

theorem lookup_cons (k l : String) (v : ν) (kvs : List (String × ν)) :
    lookup k ((l, v) :: kvs) = if l = k then some v else lookup k kvs := rfl

theorem lookup_filter (p : String → Bool) (k : String) (kvs : List (String × ν)) :
    lookup k (kvs.filter (fun kv => p kv.1)) = if p k then lookup k kvs else .none := by
  induction kvs with
  | nil => simp
  | cons kv kvs ih =>
    obtain ⟨l, v⟩ := kv
    by_cases hl : l = k
    · subst hl
      by_cases hp : p l = true <;> simp [hp, lookup_cons, ih]
    · by_cases hp : p l = true <;> simp [hp, lookup_cons, hl, ih]

theorem lookup_upsertItems (k l : String) (v : ν) (kvs : List (String × ν)) :
    lookup k (Lib.Dict.upsertItems l v kvs) = if l = k then some v else lookup k kvs := by
  induction kvs with
  | nil => rfl
  | cons kv kvs ih =>
    rw [Lib.Dict.upsertItems]
    by_cases hl : kv.1 = l
    · rw [if_pos hl, lookup_cons]
      by_cases hk : l = k
      · rw [if_pos hk, if_pos hk]
      · rw [if_neg hk, if_neg hk]
        exact (if_neg (fun h => hk (hl ▸ h))).symm
    · rw [if_neg hl]
      by_cases hk : kv.1 = k
      · rw [lookup, lookup, if_pos hk, if_pos hk, if_neg (fun h => hl (hk.trans h.symm))]
      · rw [lookup, lookup, if_neg hk, if_neg hk, ih]

theorem lookup_eq_none {k : String} {kvs : List (String × ν)} : lookup k kvs = .none ↔ k ∉ kvs.map Prod.fst := by
  induction kvs with
  | nil => simp
  | cons kv kvs ih =>
    obtain ⟨l, v⟩ := kv
    rw [lookup_cons]
    by_cases hl : l = k
    · simp [hl]
    · rw [if_neg hl, ih, List.map_cons, List.mem_cons, not_or]
      exact ⟨fun h => ⟨Ne.symm hl, h⟩, fun h => h.2⟩

/-- Items stored one after another, each from what was under its key. -/
theorem lookup_foldl_upsert {μ : Type} (f : Option ν → μ → ν) (k : String) {items : List (String × μ)}
    (h : (items.map Prod.fst).Nodup) (d : List (String × ν)) :
    lookup k (items.foldl (fun d kv => Lib.Dict.upsertItems kv.1 (f (lookup kv.1 d) kv.2) d) d) =
      match lookup k items with
      | some v => some (f (lookup k d) v)
      | .none => lookup k d := by
  induction items generalizing d with
  | nil => rfl
  | cons kv items ih =>
    obtain ⟨l, v⟩ := kv
    obtain ⟨hl, hnodup⟩ := List.nodup_cons.1 h
    rw [List.foldl_cons, ih hnodup, lookup_upsertItems, lookup_cons]
    by_cases hk : l = k
    · subst hk
      rw [lookup_eq_none.2 hl, if_pos rfl, if_pos rfl]
    · rw [if_neg hk, if_neg hk]

end Lookup

@[simp] theorem update_nil (d : List (String × Val)) : update d [] = d := rfl

@[simp] theorem update_cons (d e : List (String × Val)) (k : String) (v : Val) :
    update d ((k, v) :: e) = update (Lib.Dict.upsertItems k v d) e := rfl

/-- An updated dictionary: the new entry, else the old one. -/
theorem lookup_update {e : List (String × Val)} (h : (e.map Prod.fst).Nodup) (d : List (String × Val)) (k : String) :
    lookup k (update d e) = (lookup k e).or (lookup k d) := by
  have hfold := lookup_foldl_upsert (fun _ v => v) k h d
  refine hfold.trans ?_
  cases lookup k e <;> rfl

/-! ## Slices -/

section Slices
variable {α : Type}

/-- The list position a slice bound denotes: a negative bound counts from the
end, and both are clamped to the list. -/
def sliceIndex (len : Nat) (i : Int) : Nat := if i < 0 then (len + i).toNat else min i.toNat len

/-- `xs[:i]`. -/
def sliceTo (xs : List α) (i : Int) : List α := xs.take (sliceIndex xs.length i)

/-- `xs[i:]`. -/
def sliceFrom (xs : List α) (i : Int) : List α := xs.drop (sliceIndex xs.length i)

theorem sliceTo_nonneg (xs : List α) (i : Int) (h : 0 ≤ i) : sliceTo xs i = xs.take i.toNat := by
  rw [sliceTo, sliceIndex, if_neg (by omega), List.take_eq_take_iff]
  omega

theorem sliceTo_neg (xs : List α) (i : Int) (h : i < 0) : sliceTo xs i = xs.take (xs.length + i).toNat := by
  rw [sliceTo, sliceIndex, if_pos h]

end Slices

/-! ## Strings -/

/-- `str.isspace` of one character. -/
def isspace (c : Char) : Bool :=
  let n := c.toNat
  (9 ≤ n && n ≤ 13) || (28 ≤ n && n ≤ 32) || n == 133 || n == 160 || n == 5760 || (8192 ≤ n && n ≤ 8202) ||
    n == 8232 || n == 8233 || n == 8239 || n == 8287 || n == 12288

/-- The characters without those at both ends that a test drops. -/
def stripped (drops : Char → Bool) (cs : List Char) : List Char :=
  ((cs.dropWhile drops).reverse.dropWhile drops).reverse

/-- `s.strip()`. -/
def strip (s : String) : String := String.ofList (stripped isspace s.toList)

/-- `s.lower()`, on the ASCII letters. -/
def lower (s : String) : String := String.ofList (s.toList.map Char.toLower)

/-- `s.startswith(p)`. -/
def startswith (s p : String) : Bool := p.toList.isPrefixOf s.toList

/-- `s.endswith(p)`. -/
def endswith (s p : String) : Bool := p.toList.isSuffixOf s.toList

/-- The text before and after the last `c`. -/
def rpartition (c : Char) : List Char → Option (List Char × List Char)
  | [] => .none
  | d :: s =>
    match rpartition c s with
    | some (before, after) => some (d :: before, after)
    | .none => if d = c then some ([], s) else .none

/-- `s.rsplit(c, 1)[-1]`. -/
def last_part (c : Char) (s : String) : String :=
  match rpartition c s.toList with
  | some (_, after) => String.ofList after
  | .none => s

theorem rpartition_none {c : Char} {s : List Char} (h : c ∉ s) : rpartition c s = .none := by
  induction s with
  | nil => rfl
  | cons d s ih =>
    rw [List.mem_cons, not_or] at h
    rw [rpartition, ih h.2]
    exact if_neg (Ne.symm h.1)

theorem rpartition_last {c : Char} {after : List Char} (h : c ∉ after) (before : List Char) :
    rpartition c (before ++ c :: after) = some (before, after) := by
  induction before with
  | nil =>
    rw [List.nil_append, rpartition, rpartition_none h]
    exact if_pos rfl
  | cons d before ih => rw [List.cons_append, rpartition, ih]

/-- A text without the separator is its own last part. -/
theorem last_part_self {c : Char} {s : String} (h : c ∉ s.toList) : last_part c s = s := by
  rw [last_part, rpartition_none h]

theorem last_part_append {c : Char} {last : String} (h : c ∉ last.toList) (front : String) :
    last_part c (front ++ String.singleton c ++ last) = last := by
  rw [last_part, String.toList_append, String.toList_append, String.toList_singleton, List.append_assoc,
    List.singleton_append, rpartition_last h]
  exact String.ofList_toList

/-- `p in s`. -/
def contains (s p : String) : Bool := s.toList.tails.any (fun t => p.toList.isPrefixOf t)

/-- `s[:n]`, `n ≥ 0`. -/
def head (s : String) (n : Nat) : String := String.ofList (s.toList.take n)

/-- For literals, which unify with the list of their characters. -/
theorem startswith_ofList (s p : List Char) : startswith (String.ofList s) (String.ofList p) = p.isPrefixOf s := by
  rw [startswith, String.toList_ofList, String.toList_ofList]

theorem startswith_iff (s p : String) : startswith s p = true ↔ p.toList <+: s.toList := by
  simp [startswith, List.isPrefixOf_iff_prefix]

theorem startswith_append {s p : String} (h : startswith s p = true) (t : String) : startswith (s ++ t) p = true := by
  rw [startswith_iff] at h ⊢
  rw [String.toList_append]
  exact h.trans (List.prefix_append _ _)

end Z4jCelery.Py
