import Z4jCelery.Tracebacks.Truncation
/-!
# The documented bound of a cut

`traceback_tail` keeps its bound, its last characters and its own results for
every positive limit. For the limit 0 the slice `traceback[-0:]` is the whole
text, so a cut makes the traceback longer, and longer again each time.
-/

namespace Z4jCelery.Tracebacks

open Py Z4jCelery.Core Events

/-- What `traceback_tail` documents of its result `r` for the text `t`. -/
structure Documented (limit : Int) (t r : String) : Prop where
  bounded : (r.length : Int) ≤ limit + Mapper.TRACEBACK_TRUNCATED_MARKER.length
  short : (t.length : Int) ≤ limit → r = t
  long : limit < t.length → ∃ front last : String, t = front ++ last ∧ (last.length : Int) = limit ∧
    r = Mapper.TRACEBACK_TRUNCATED_MARKER ++ last
  again : Mapper.traceback_tail (.str r) limit = .ok (.str r)

variable {t : String} {limit : Int}

/-! ## A positive limit -/

theorem str_tail_short (h : (t.length : Int) ≤ limit) : Mapper.str_tail t limit = t := by
  rw [Mapper.str_tail, String.length_toList, if_pos h]

/-- A text longer than the limit, at the cut. -/
theorem str_tail_long (hpos : 0 < limit) (h : limit < t.length) :
    ∃ front last : String, t = front ++ last ∧ (last.length : Int) = limit ∧
      Mapper.str_tail t limit = Mapper.TRACEBACK_TRUNCATED_MARKER ++ last := by
  obtain ⟨n, rfl⟩ := Int.eq_ofNat_of_zero_le hpos.le
  have hlen : n < t.toList.length := by rw [String.length_toList]; omega
  refine ⟨String.ofList (t.toList.take (t.toList.length - n)), String.ofList (t.toList.drop (t.toList.length - n)),
    ?_, ?_, ?_⟩
  · rw [← String.ofList_append, List.take_append_drop, String.ofList_toList]
  · rw [String.length_ofList, List.length_drop]
    omega
  · apply String.toList_inj.1
    rw [str_tail_toList (by omega), cut_long hlen, String.toList_append, String.toList_ofList]
    rfl

/-- A marked text of the right length is its own cut: the marker is put back
where it was, whether the limit reaches into it or not. -/
theorem str_tail_marked (hpos : 0 < limit) {last : String} (h : (last.length : Int) = limit) :
    Mapper.str_tail (Mapper.TRACEBACK_TRUNCATED_MARKER ++ last) limit = Mapper.TRACEBACK_TRUNCATED_MARKER ++ last := by
  have hlong : limit < (Mapper.TRACEBACK_TRUNCATED_MARKER ++ last).length := by
    have hmarker : 0 < Mapper.TRACEBACK_TRUNCATED_MARKER.length := by decide
    rw [String.length_append]
    omega
  obtain ⟨front, last', he, hl, hr⟩ := str_tail_long hpos hlong
  have hlast : last' = last := by
    have he' := congrArg String.toList he
    rw [String.toList_append, String.toList_append] at he'
    have hsame : last.toList.length = last'.toList.length := by
      rw [String.length_toList, String.length_toList]
      omega
    exact String.toList_inj.1 (List.append_inj_right' he' hsame).symm
  rw [hr, hlast]

theorem documented_of_pos (hpos : 0 < limit) (t : String) : Documented limit t (Mapper.str_tail t limit) := by
  rcases le_or_gt (t.length : Int) limit with h | h
  · have hr : Mapper.str_tail t limit = t := str_tail_short h
    refine ⟨?_, fun _ => hr, fun hlong => absurd hlong (not_lt.2 h), ?_⟩
    · rw [hr]
      omega
    · rw [hr, Mapper.traceback_tail, hr]
  · obtain ⟨front, last, he, hl, hr⟩ := str_tail_long hpos h
    refine ⟨?_, fun hshort => absurd h (not_lt.2 hshort), fun _ => ⟨front, last, he, hl, hr⟩, ?_⟩
    · rw [hr, String.length_append]
      omega
    · rw [hr, Mapper.traceback_tail, str_tail_marked hpos hl]

/-- Both places that cut a traceback do it at a positive limit. -/
theorem sites_documented (t : String) :
    Documented Mapper.TRACEBACK_MAX_CHARS t (Mapper.str_tail t Mapper.TRACEBACK_MAX_CHARS) ∧
      Documented Engine.Reconcile.TRACEBACK_LIMIT t (Mapper.str_tail t Engine.Reconcile.TRACEBACK_LIMIT) :=
  ⟨documented_of_pos (by decide) t, documented_of_pos (by decide) t⟩

/-! ## The limit 0 -/

/-- `traceback[-0:]` is `traceback[0:]`. -/
theorem str_tail_zero (h : t ≠ "") : Mapper.str_tail t 0 = Mapper.TRACEBACK_TRUNCATED_MARKER ++ t := by
  have hlen : 0 < t.length := Nat.pos_of_ne_zero fun he => h (String.length_eq_zero_iff.1 he)
  rw [Mapper.str_tail, String.length_toList, if_neg (by omega), sliceFrom, sliceIndex, if_neg (by decide)]
  simp

theorem not_documented_zero (h : t ≠ "") : ¬Documented 0 t (Mapper.str_tail t 0) := by
  intro hd
  have hb := hd.bounded
  rw [str_tail_zero h, String.length_append] at hb
  have hlen : 0 < t.length := Nat.pos_of_ne_zero fun he => h (String.length_eq_zero_iff.1 he)
  omega

/-- The documented bound, exactly. -/
theorem traceback_tail_documented_iff (t : String) (limit : Int) (hlimit : 0 ≤ limit) :
    (∃ r, Mapper.traceback_tail (.str t) limit = .ok (.str r) ∧ Documented limit t r) ↔ ¬(limit = 0 ∧ t ≠ "") := by
  have hres : (∃ r, Mapper.traceback_tail (.str t) limit = .ok (.str r) ∧ Documented limit t r) ↔
      Documented limit t (Mapper.str_tail t limit) := by
    simp only [Mapper.traceback_tail, Except.ok.injEq, Val.str.injEq, exists_eq_left']
  rw [hres]
  rcases hlimit.eq_or_lt with rfl | hpos
  · rcases eq_or_ne t "" with rfl | ht
    · refine iff_of_true ?_ (fun h => h.2 rfl)
      have hr : Mapper.str_tail "" 0 = "" := by decide
      exact ⟨by rw [hr]; decide, fun _ => hr, fun h => absurd h (by decide), by rw [hr, Mapper.traceback_tail, hr]⟩
    · exact iff_of_false (not_documented_zero ht) (fun h => h ⟨rfl, ht⟩)
  · exact iff_of_true (documented_of_pos hpos t) (fun h => absurd h.1 hpos.ne')

theorem traceback_tail_documented_four :
    (∃ r, Mapper.traceback_tail (.str "abcdefg") 4 = .ok (.str r) ∧ Documented 4 "abcdefg" r) ↔
      ¬((4 : Int) = 0 ∧ "abcdefg" ≠ "") :=
  traceback_tail_documented_iff "abcdefg" 4 (by decide)

/-- A character cut to none is still there, behind the marker. -/
theorem traceback_tail_keeps_all :
    ¬∀ (t : String) (limit : Int), 0 ≤ limit →
      ∃ r, Mapper.traceback_tail (.str t) limit = .ok (.str r) ∧ Documented limit t r := by
  intro h
  obtain ⟨r, hr, hd⟩ := h "x" 0 (by decide)
  have hx : r = Mapper.str_tail "x" 0 := by
    rw [Mapper.traceback_tail, Except.ok.injEq, Val.str.injEq] at hr
    exact hr.symm
  exact not_documented_zero (by decide) (hx ▸ hd)

end Z4jCelery.Tracebacks
