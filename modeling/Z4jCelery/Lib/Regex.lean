import Mathlib.Computability.RegularExpressions
/-!
# Classes and anchors for regular expressions

A class is the sum of its symbols. `matchLine` matches a whole line as the
anchors `^` and `$` do: the end is before the last newline, too.
-/

namespace Z4jCelery.Lib.Regex

open RegularExpression

variable {α : Type} [DecidableEq α]

/-- One of the symbols. -/
def ofClass (cs : List α) : RegularExpression α := cs.foldr (fun c r => char c + r) 0

/-- The expression, or nothing. -/
def opt (P : RegularExpression α) : RegularExpression α := 1 + P

theorem ofClass_rmatch_iff (cs : List α) (x : List α) : (ofClass cs).rmatch x = true ↔ ∃ c ∈ cs, x = [c] := by
  induction cs with
  | nil => simp [ofClass]
  | cons c cs ih =>
    rw [ofClass, List.foldr_cons, add_rmatch_iff, char_rmatch_iff, ← ofClass, ih]
    simp

theorem opt_rmatch_iff (P : RegularExpression α) (x : List α) :
    (opt P).rmatch x = true ↔ x = [] ∨ P.rmatch x = true := by
  rw [opt, add_rmatch_iff, one_rmatch_iff]

theorem star_ofClass_rmatch_iff (cs : List α) (x : List α) :
    (star (ofClass cs)).rmatch x = true ↔ ∀ c ∈ x, c ∈ cs := by
  rw [star_rmatch_iff]
  constructor
  · rintro ⟨S, rfl, hS⟩ c hc
    obtain ⟨t, ht, hct⟩ := List.mem_flatten.1 hc
    obtain ⟨d, hd, rfl⟩ := (ofClass_rmatch_iff cs t).1 (hS t ht).2
    rwa [List.mem_singleton.1 hct]
  · intro h
    refine ⟨x.map fun c => [c], ?_, ?_⟩
    · induction x with
      | nil => rfl
      | cons c x ih => rw [List.map_cons, List.flatten_cons, ← ih fun d hd => h d (List.mem_cons_of_mem c hd)]; rfl
    · intro t ht
      obtain ⟨c, hc, rfl⟩ := List.mem_map.1 ht
      exact ⟨List.cons_ne_nil c [], (ofClass_rmatch_iff cs [c]).2 ⟨c, h c hc, rfl⟩⟩

/-- `re.match("^P$", x)`. -/
def matchLine (newline : α) (P : RegularExpression α) (x : List α) : Bool :=
  P.rmatch x || (decide (x.getLast? = some newline) && P.rmatch x.dropLast)

theorem matchLine_iff (newline : α) (P : RegularExpression α) (x : List α) :
    matchLine newline P x = true ↔ ∃ body rest, x = body ++ rest ∧ (rest = [] ∨ rest = [newline]) ∧
      P.rmatch body = true := by
  rw [matchLine, Bool.or_eq_true, Bool.and_eq_true, decide_eq_true_iff]
  constructor
  · rintro (h | ⟨hlast, h⟩)
    · exact ⟨x, [], (List.append_nil x).symm, .inl rfl, h⟩
    · refine ⟨x.dropLast, [newline], ?_, .inr rfl, h⟩
      exact (List.dropLast_append_getLast? newline hlast).symm
  · rintro ⟨body, rest, rfl, rfl | rfl, h⟩
    · exact .inl (by rwa [List.append_nil])
    · exact .inr ⟨by simp, by simpa using h⟩

end Z4jCelery.Lib.Regex
