import Mathlib.Data.List.Basic
/-!
# Scrubbing engines

An engine splits a text into characters it keeps and matches it replaces.
`traced` follows the characters of the text through the replacement: every
character of the output comes from a position outside the matches, or from a
placeholder (`mem_traced`).

A scanner is an engine that matches from left to right and looks at what is
ahead only: after a place where no match runs on, it does what it would do at
the start of a text (`scan_rest`).
-/

namespace Z4jCelery.Lib.Scrub

variable {α ω : Type}

/-- A character outside the matches, or a match. -/
inductive Piece (α : Type) where
  | plain (a : α)
  | secret (s : List α)

def Piece.text : Piece α → List α
  | .plain a => [a]
  | .secret s => s

/-- For every character of the piece, whether it is inside a match. -/
def Piece.mask : Piece α → List Bool
  | .plain _ => [false]
  | .secret s => s.map fun _ => true

def text (ps : List (Piece α)) : List α := ps.flatMap Piece.text

def mask (ps : List (Piece α)) : List Bool := ps.flatMap Piece.mask

/-- What is left of a text, with the placeholder for every match. -/
def replace (placeholder : List α) (ps : List (Piece α)) : List α :=
  ps.flatMap fun p => match p with
    | .plain a => [a]
    | .secret _ => placeholder

/-- An engine finds the matches in any text. -/
structure Engine (α : Type) where
  placeholder : List α
  split : List α → List (Piece α)
  split_text : ∀ s, text (split s) = s

def Engine.scrub (E : Engine α) (s : List α) : List α := replace E.placeholder (E.split s)

/-- Position `i` of the text lies inside a match. -/
def Engine.InMatch (E : Engine α) (s : List α) (i : Nat) : Prop := (mask (E.split s))[i]? = some true

/-! ## Following the characters -/

/-- What is left of a text whose characters carry origins: a character with its
origin, or one of the placeholder. -/
def traced (placeholder : List α) : List (Piece α) → List ω → List (α × Option ω)
  | [], _ => []
  | .plain a :: ps, os => (a, os.head?) :: traced placeholder ps os.tail
  | .secret s :: ps, os => placeholder.map (·, none) ++ traced placeholder ps (os.drop s.length)

theorem traced_text (placeholder : List α) (ps : List (Piece α)) (os : List ω) :
    (traced placeholder ps os).map Prod.fst = replace placeholder ps := by
  induction ps generalizing os with
  | nil => rfl
  | cons p ps ih =>
    cases p with
    | plain a => rw [traced, List.map_cons, ih]; rfl
    | secret s =>
      rw [traced, List.map_append, List.map_map, ih]
      simp [replace, Function.comp_def]

theorem mask_cons (p : Piece α) (ps : List (Piece α)) : mask (p :: ps) = p.mask ++ mask ps := rfl

theorem mask_append (ps qs : List (Piece α)) : mask (ps ++ qs) = mask ps ++ mask qs := by
  rw [mask, List.flatMap_append]
  rfl

theorem text_append (ps qs : List (Piece α)) : text (ps ++ qs) = text ps ++ text qs := by
  rw [text, List.flatMap_append]
  rfl

theorem length_mask (ps : List (Piece α)) : (mask ps).length = (text ps).length := by
  induction ps with
  | nil => rfl
  | cons p ps ih =>
    have hpiece : p.mask.length = p.text.length := by
      cases p with
      | plain a => rfl
      | secret s => exact List.length_map _
    rw [mask_cons, List.length_append, ih, hpiece]
    exact List.length_append.symm

theorem Engine.length_mask (E : Engine α) (s : List α) : (mask (E.split s)).length = s.length := by
  rw [Scrub.length_mask, E.split_text]

theorem text_plain (s : List α) : text (s.map .plain) = s := by
  rw [text, List.flatMap_map]
  exact List.flatMap_singleton' s

/-- A text without matches is kept, and one that is a match is not. -/
theorem replace_plain (placeholder s : List α) : replace placeholder (s.map .plain) = s := by
  rw [replace, List.flatMap_map]
  exact List.flatMap_singleton' s

theorem replace_secret (placeholder s : List α) : replace placeholder [.secret s] = placeholder := List.append_nil _

theorem Engine.not_inMatch_plain {E : Engine α} {s : List α} (h : E.split s = s.map .plain) (i : Nat) :
    ¬ E.InMatch s i := by
  have hmask : mask (s.map Piece.plain) = s.map fun _ => false := by
    rw [mask, List.flatMap_map]
    exact List.flatMap_pure_eq_map _ _
  rw [Engine.InMatch, h, hmask, List.getElem?_map]
  cases s[i]? <;> simp

theorem Engine.inMatch_secret {E : Engine α} {s : List α} (h : E.split s = [.secret s]) {i : Nat} (hi : i < s.length) :
    E.InMatch s i := by
  have hmask : mask [Piece.secret s] = s.map fun _ => true := List.append_nil _
  rw [Engine.InMatch, h, hmask, List.getElem?_map, List.getElem?_eq_getElem hi]
  rfl

/-- The origins in the output are those of the positions outside the matches. -/
theorem mem_traced {placeholder : List α} {ps : List (Piece α)} {os : List ω} {o : ω} :
    (∃ a, (a, some o) ∈ traced placeholder ps os) ↔ ∃ i : Nat, os[i]? = some o ∧ (mask ps)[i]? = some false := by
  induction ps generalizing os with
  | nil => simp [traced, mask]
  | cons p ps ih =>
    cases p with
    | plain a =>
      rw [traced, mask_cons]
      constructor
      · rintro ⟨b, hb⟩
        rcases List.mem_cons.1 hb with hb | hb
        · refine ⟨0, ?_, rfl⟩
          rw [← List.head?_eq_getElem?]
          exact (Prod.mk.inj hb).2.symm
        · obtain ⟨i, ho, hm⟩ := ih.1 ⟨b, hb⟩
          exact ⟨i + 1, by rwa [List.getElem?_tail] at ho, hm⟩
      · rintro ⟨i, ho, hm⟩
        cases i with
        | zero => exact ⟨a, List.mem_cons.2 (.inl (by rw [List.head?_eq_getElem?, ho]))⟩
        | succ i =>
          obtain ⟨b, hb⟩ := ih.2 ⟨i, by rwa [List.getElem?_tail], hm⟩
          exact ⟨b, List.mem_cons_of_mem _ hb⟩
    | secret s =>
      have hnone : ∀ {b}, (b, some o) ∉ placeholder.map (·, (none : Option ω)) := fun h => by
        obtain ⟨c, -, hc⟩ := List.mem_map.1 h
        cases hc
      have hlength : (Piece.secret s).mask.length = s.length := List.length_map _
      rw [traced, mask_cons]
      constructor
      · rintro ⟨b, hb⟩
        obtain ⟨i, ho, hm⟩ := ih.1 ⟨b, (List.mem_append.1 hb).resolve_left hnone⟩
        rw [List.getElem?_drop] at ho
        refine ⟨s.length + i, ho, ?_⟩
        rw [List.getElem?_append_right (by omega), hlength, Nat.add_sub_cancel_left]
        exact hm
      · rintro ⟨i, ho, hm⟩
        -- a position inside the match is masked
        have hi : s.length ≤ i := by
          by_contra hlt
          rw [List.getElem?_append_left (by omega), Piece.mask, List.getElem?_map] at hm
          cases hs : s[i]? <;> simp [hs] at hm
        rw [List.getElem?_append_right (by omega), hlength] at hm
        obtain ⟨b, hb⟩ := ih.2 ⟨i - s.length, by rwa [List.getElem?_drop, Nat.add_sub_cancel' hi], hm⟩
        exact ⟨b, List.mem_append_right _ hb⟩

/-! ## Scanners -/

section Scanner
variable (len : List α → Nat)

/-- Scan from left to right: `len` is the length of the match that starts here,
zero for none. -/
def scan : List α → List (Piece α)
  | [] => []
  | a :: s => if len (a :: s) = 0 then .plain a :: scan s
    else .secret ((a :: s).take (len (a :: s))) :: scan ((a :: s).drop (len (a :: s)))
termination_by s => s.length
decreasing_by
  · simp
  · simp only [List.length_drop, List.length_cons]; omega

theorem scan_text (s : List α) : text (scan len s) = s := by
  induction s using scan.induct len with
  | case1 => rw [scan]; rfl
  | case2 a s h ih =>
    rw [scan, if_pos h, text, List.flatMap_cons]
    exact congrArg (a :: ·) ih
  | case3 a s h ih =>
    rw [scan, if_neg h, text, List.flatMap_cons]
    exact (congrArg (List.take (len (a :: s)) (a :: s) ++ ·) ih).trans (List.take_append_drop _ _)

/-- After any piece the scanner starts afresh. -/
theorem scan_rest {s : List α} {ps qs : List (Piece α)} (h : scan len s = ps ++ qs) : qs = scan len (text qs) := by
  induction ps generalizing s with
  | nil =>
    rw [List.nil_append] at h
    rw [← h, scan_text]
  | cons p ps ih =>
    cases s with
    | nil => rw [scan] at h; cases h
    | cons a s =>
      rw [scan] at h
      split at h
      · exact ih (List.cons.inj h).2
      · exact ih (List.cons.inj h).2

/-- Up to where a match may start, everything is kept. -/
theorem scan_append_plain {s rest : List α} (h : ∀ t, t <:+ s → t ≠ [] → len (t ++ rest) = 0) :
    scan len (s ++ rest) = s.map .plain ++ scan len rest := by
  induction s with
  | nil => rfl
  | cons a s ih =>
    have hfirst : len (a :: (s ++ rest)) = 0 := h _ List.suffix_rfl (List.cons_ne_nil a s)
    rw [List.cons_append, scan, if_pos hfirst, List.map_cons, List.cons_append]
    exact congrArg (Piece.plain a :: ·) (ih fun t ht => h t (ht.trans (List.suffix_cons a s)))

theorem scan_plain {s : List α} (h : ∀ t, t <:+ s → t ≠ [] → len t = 0) : scan len s = s.map .plain := by
  have hscan := @scan_append_plain α len s [] fun t ht hne => by
    rw [List.append_nil]
    exact h t ht hne
  rwa [List.append_nil, scan, List.append_nil] at hscan

def scanner (placeholder : List α) : Engine α := ⟨placeholder, scan len, scan_text len⟩

end Scanner

end Z4jCelery.Lib.Scrub
