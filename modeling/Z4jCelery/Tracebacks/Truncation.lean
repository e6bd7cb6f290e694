import Z4jCelery.Tracebacks
import Z4jCelery.Lib.Scrub
/-!
# Cutting a traceback before redacting it

A failed event carries what redaction leaves of the marker and the last
characters of a traceback. A match that straddles the cut is no longer whole
when the engine sees it. `emitted` follows every character of the traceback to
the event; `safe_iff` says when none of them comes from inside a match of the
whole traceback.
-/

namespace Z4jCelery.Tracebacks

open Py Z4jCelery.Core Events Lib.Scrub

/-- `TRACEBACK_MAX_CHARS`, as a natural number. -/
def MAX_CHARS : Nat := Mapper.TRACEBACK_MAX_CHARS.toNat

def marker : List Char := Mapper.TRACEBACK_TRUNCATED_MARKER.toList

variable {n : Nat} {t : List Char} {E : Engine Char}

/-! ## The cut -/

/-- The tail that the engine receives. -/
def cut (n : Nat) (t : List Char) : List Char := if t.length ≤ n then t else marker ++ t.drop (t.length - n)

/-- Where its characters are in the traceback; nowhere for the marker. -/
def origins (n : Nat) (t : List Char) : List (Option Nat) :=
  if t.length ≤ n then (List.range t.length).map some
  else marker.map (fun _ => none) ++ (List.range' (t.length - n) n).map some

theorem str_tail_toList (hn : 0 < n) (t : String) : (Mapper.str_tail t n).toList = cut n t.toList := by
  rw [Mapper.str_tail, cut]
  by_cases h : t.toList.length ≤ n
  · rw [if_pos h, if_pos (by exact_mod_cast h)]
  · rw [if_neg h, if_neg (by exact_mod_cast h), String.toList_append, String.toList_ofList, sliceFrom, sliceIndex,
      if_pos (by omega)]
    congr 2
    omega

theorem str_tail_max (t : String) :
    (Mapper.str_tail t Mapper.TRACEBACK_MAX_CHARS).toList = cut MAX_CHARS t.toList := by
  have hmax : Mapper.TRACEBACK_MAX_CHARS = (MAX_CHARS : Int) := rfl
  rw [hmax]
  exact str_tail_toList (by decide) t

theorem cut_long (h : n < t.length) : cut n t = marker ++ t.drop (t.length - n) := if_neg (by omega)

theorem origins_long (h : n < t.length) :
    origins n t = marker.map (fun _ => none) ++ (List.range' (t.length - n) n).map some := if_neg (by omega)

/-! ## What is emitted -/

/-- The traceback of the event: a character with its position in the whole
traceback, or one of the marker or of a placeholder. -/
def emitted (E : Engine Char) (n : Nat) (t : List Char) : List (Char × Option (Option Nat)) :=
  traced E.placeholder (E.split (cut n t)) (origins n t)

/-- The character at position `q` of the traceback is emitted. -/
def Exposes (E : Engine Char) (n : Nat) (t : List Char) (q : Nat) : Prop := ∃ a, (a, some (some q)) ∈ emitted E n t

/-- No character inside a match of the whole traceback is emitted. -/
def Safe (E : Engine Char) (n : Nat) (t : List Char) : Prop := ∀ q, Exposes E n t q → ¬ E.InMatch t q

theorem emitted_text : (emitted E n t).map Prod.fst = E.scrub (cut n t) := traced_text _ _ _

theorem exposes_short (h : t.length ≤ n) {q : Nat} (he : Exposes E n t q) : ¬ E.InMatch t q := by
  obtain ⟨i, ho, hm⟩ := mem_traced.1 he
  rw [origins, if_pos h, List.getElem?_map, Option.map_eq_some_iff] at ho
  obtain ⟨j, hj, hq⟩ := ho
  obtain ⟨hlt, rfl⟩ := List.getElem?_eq_some_iff.1 hj
  obtain rfl := Option.some.inj hq
  rw [List.getElem_range]
  rw [cut, if_pos h] at hm
  rw [Engine.InMatch, hm]
  simp

theorem exposes_long (h : n < t.length) {q : Nat} :
    Exposes E n t q ↔ ∃ j < n, q = t.length - n + j ∧ (mask (E.split (cut n t)))[marker.length + j]? = some false := by
  rw [Exposes, emitted, mem_traced, origins_long h]
  constructor
  · rintro ⟨i, ho, hm⟩
    by_cases hi : i < marker.length
    · rw [List.getElem?_append_left (by simpa using hi), List.getElem?_map, Option.map_eq_some_iff] at ho
      obtain ⟨_, -, hc⟩ := ho
      cases hc
    · rw [List.getElem?_append_right (by simpa using Nat.le_of_not_lt hi), List.length_map, List.getElem?_map,
        Option.map_eq_some_iff] at ho
      obtain ⟨p, hp, hq⟩ := ho
      obtain ⟨hlt, rfl⟩ := List.getElem?_eq_some_iff.1 hp
      obtain rfl := Option.some.inj hq
      rw [List.length_range'] at hlt
      refine ⟨i - marker.length, hlt, by rw [List.getElem_range', Nat.one_mul], ?_⟩
      rwa [Nat.add_sub_cancel' (Nat.le_of_not_lt hi)]
  · rintro ⟨j, hj, rfl, hm⟩
    refine ⟨marker.length + j, ?_, hm⟩
    rw [List.getElem?_append_right (by simp), List.length_map, Nat.add_sub_cancel_left, List.getElem?_map,
      List.getElem?_range' hj, Nat.one_mul]
    rfl

theorem length_cut (h : n < t.length) : (cut n t).length = marker.length + n := by
  rw [cut_long h, List.length_append, List.length_drop]
  omega

/-! ## When it is safe -/

/-- A traceback is safe when it is not cut, or when whatever a match of the
whole covers of the kept tail is covered by matches of the text that the engine
receives. -/
theorem safe_iff (E : Engine Char) (n : Nat) (t : List Char) :
    Safe E n t ↔ t.length ≤ n ∨
      ∀ j < n, E.InMatch t (t.length - n + j) → E.InMatch (cut n t) (marker.length + j) := by
  by_cases h : t.length ≤ n
  · exact iff_of_true (fun q he => exposes_short h he) (.inl h)
  · have h : n < t.length := Nat.lt_of_not_le h
    rw [or_iff_right (Nat.not_le_of_lt h)]
    constructor
    · intro hsafe j hj hmatch
      by_contra hnot
      -- a position that the tail's matches leave out is emitted
      have hlt : marker.length + j < (mask (E.split (cut n t))).length := by
        rw [E.length_mask, length_cut h]
        omega
      have hfalse : (mask (E.split (cut n t)))[marker.length + j]? = some false := by
        rw [Engine.InMatch, List.getElem?_eq_getElem hlt, Option.some.injEq, Bool.not_eq_true] at hnot
        rw [List.getElem?_eq_getElem hlt, hnot]
      exact hsafe _ ((exposes_long h).2 ⟨j, hj, rfl, hfalse⟩) hmatch
    · intro hcover q he hmatch
      obtain ⟨j, hj, rfl, hm⟩ := (exposes_long h).1 he
      have hin := hcover j hj hmatch
      rw [Engine.InMatch, hm] at hin
      cases hin

/-- No match runs over the cut, none runs out of the marker, and the engine
finds the same matches after both: then the traceback is safe. -/
theorem safe_of_boundary {X Y Z : List (Piece Char)} (hX : E.split t = X ++ Z)
    (htext : text X = t.take (t.length - n)) (hY : E.split (cut n t) = Y ++ Z) (hmarker : text Y = marker) :
    Safe E n t := by
  by_cases h : t.length ≤ n
  · exact (safe_iff E n t).2 (.inl h)
  · refine (safe_iff E n t).2 (.inr fun j _ hmatch => ?_)
    have hlenX : (mask X).length = t.length - n := by
      rw [length_mask, htext, List.length_take]
      omega
    have hlenY : (mask Y).length = marker.length := by rw [length_mask, hmarker]
    rw [Engine.InMatch, hX, mask_append, List.getElem?_append_right (by omega), hlenX, Nat.add_sub_cancel_left] at hmatch
    rw [Engine.InMatch, hY, mask_append, List.getElem?_append_right (by omega), hlenY, Nat.add_sub_cancel_left]
    exact hmatch

/-- For a scanner it is enough that no match runs over the cut or out of the
marker. -/
theorem scanner_safe {len : List Char → Nat} {placeholder : List Char} {X Z Y W : List (Piece Char)}
    (hX : scan len t = X ++ Z) (htext : text X = t.take (t.length - n)) (hY : scan len (cut n t) = Y ++ W)
    (hmarker : text Y = marker) : Safe (scanner len placeholder) n t := by
  by_cases h : t.length ≤ n
  · exact (safe_iff _ n t).2 (.inl h)
  · have hZ : text Z = t.drop (t.length - n) := by
      have hwhole : text X ++ text Z = t := by rw [← text_append, ← hX, scan_text]
      refine List.append_cancel_left (hwhole.trans ?_)
      rw [htext, List.take_append_drop]
    have hW : text W = t.drop (t.length - n) := by
      have hwhole : text Y ++ text W = cut n t := by rw [← text_append, ← hY, scan_text]
      refine List.append_cancel_left (hwhole.trans ?_)
      rw [hmarker, cut_long (Nat.lt_of_not_le h)]
    -- after the boundary both scans are the scan of the tail
    have hsame : W = Z := by rw [scan_rest len hX, scan_rest len hY, hZ, hW]
    exact safe_of_boundary (E := scanner len placeholder) hX htext (hsame ▸ hY) hmarker

/-- An engine whose only match is the whole of one text. -/
def whole (s : List Char) : Engine Char where
  placeholder := []
  split t := if t = s then [.secret t] else t.map .plain
  split_text t := by
    split
    · exact List.append_nil t
    · exact text_plain t

/-- Every engine is safe for a traceback exactly when nothing is cut. -/
theorem forall_safe_iff (hn : 0 < n) (t : List Char) : (∀ E, Safe E n t) ↔ cut n t = t := by
  by_cases h : t.length ≤ n
  · exact iff_of_true (fun E => (safe_iff E n t).2 (.inl h)) (if_pos h)
  · have h : n < t.length := Nat.lt_of_not_le h
    constructor
    · intro hsafe
      by_contra hne
      -- the engine that knows this one text does not know its tail
      rcases (safe_iff _ n t).1 (hsafe (whole t)) with hle | hcover
      · omega
      · exact Engine.not_inMatch_plain (if_neg hne) _ (hcover 0 hn (Engine.inMatch_secret (if_pos rfl) (by omega)))
    · intro hsame E
      refine (safe_iff E n t).2 (.inr fun j _ hmatch => ?_)
      have hlen := length_cut h
      rw [hsame] at hlen ⊢
      rwa [hlen, Nat.add_sub_cancel] at hmatch

/-! ## The event -/

/-- The engine of the package, as far as strings go. -/
def Runs (redaction : RedactionEngine) (E : Engine Char) : Prop :=
  ∀ s : String, redaction.scrub (.str s) = .str (String.ofList (E.scrub s.toList))

def password_key : List Char := ['p', 'a', 's', 's', 'w', 'o', 'r', 'd', '=']

/-- The pattern `password=` and what follows up to the next blank. -/
def password (s : List Char) : Nat :=
  if password_key.isPrefixOf s then (password_key ++ (s.drop 9).takeWhile fun c => !isspace c).length else 0

def passwords : Engine Char := scanner password "[REDACTED]".toList

def passwords_engine : RedactionEngine where
  scrub v := match v with
    | .str s => .str (String.ofList (passwords.scrub s.toList))
    | v => v

theorem runs_passwords : Runs passwords_engine passwords := fun _ => rfl

theorem failed_event_traceback {redaction : RedactionEngine} (hE : Runs redaction E) {py : Interp} {task_id : Val}
    {task : TaskArg} {exception : Mapper.Raised} {exception_type : Option String} {t : String} {worker queue : Val}
    {ev : Event}
    (h : Mapper.build_task_failed_event py redaction task_id task exception exception_type (.str t) worker queue =
      .ok ev) :
    lookup "traceback" ev.data = some (.str (String.ofList ((emitted E MAX_CHARS t.toList).map Prod.fst))) := by
  rw [build_task_failed_event_str, scrubbed_tail] at h
  have hscrub : redaction.scrub (.str (Mapper.str_tail t Mapper.TRACEBACK_MAX_CHARS)) =
      .str (String.ofList ((emitted E MAX_CHARS t.toList).map Prod.fst)) := by
    rw [hE, emitted_text, str_tail_max]
  rw [hscrub] at h
  cases hn : Mapper.resolve_task_name py task none task_id queue with
  | error e => rw [hn] at h; cases h
  | ok task_name =>
    rw [hn] at h
    obtain rfl := Except.ok.inj h
    exact (lookup_update (by simp) _ _).trans rfl

/-- The traceback that a failed event emits, for an engine that replaces its
matches: no character of it lies inside a match of the whole traceback exactly
when nothing is cut, or matches of the cut text cover what matches of the whole
cover of the tail. For a scanner it is enough that no match runs over the cut or
out of the marker. Whatever the engine is, nothing is exposed exactly when the
cut changes nothing. -/
theorem failed_event_safe_iff (redaction : RedactionEngine) (E : Engine Char) (hE : Runs redaction E) (t : String) :
    (∀ py task_id task exception exception_type worker queue ev,
      Mapper.build_task_failed_event py redaction task_id task exception exception_type (.str t) worker queue = .ok ev →
      lookup "traceback" ev.data = some (.str (String.ofList ((emitted E MAX_CHARS t.toList).map Prod.fst)))) ∧
    (Safe E MAX_CHARS t.toList ↔ t.toList.length ≤ MAX_CHARS ∨
      ∀ j < MAX_CHARS, E.InMatch t.toList (t.toList.length - MAX_CHARS + j) →
        E.InMatch (cut MAX_CHARS t.toList) (marker.length + j)) ∧
    (∀ len X Z Y W, E = scanner len E.placeholder → scan len t.toList = X ++ Z →
      text X = t.toList.take (t.toList.length - MAX_CHARS) → scan len (cut MAX_CHARS t.toList) = Y ++ W →
      text Y = marker → Safe E MAX_CHARS t.toList) ∧
    ((∀ E', Safe E' MAX_CHARS t.toList) ↔ Mapper.str_tail t Mapper.TRACEBACK_MAX_CHARS = t) := by
  have hpos : 0 < MAX_CHARS := by decide
  refine ⟨fun _ _ _ _ _ _ _ _ h => failed_event_traceback hE h, safe_iff E MAX_CHARS t.toList, ?_, ?_⟩
  · intro len X Z Y W hscanner hX htext hY hmarker
    rw [hscanner]
    exact scanner_safe hX htext hY hmarker
  · rw [forall_safe_iff hpos, ← String.toList_inj, str_tail_max]

/-! ## A secret after the cut, and one over it -/

/-- A password of `n` characters. -/
def secret (n : Nat) : List Char := password_key ++ List.replicate n 'x'

theorem length_secret (n : Nat) : (secret n).length = 9 + n := by
  rw [secret, List.length_append, List.length_replicate]
  rfl

theorem drop_secret (n : Nat) : (secret n).drop 9 = List.replicate n 'x' := List.drop_left' rfl

theorem scan_secret (n : Nat) : scan password (secret n) = [.secret (secret n)] := by
  have hprefix : password_key.isPrefixOf (secret n) = true :=
    List.isPrefixOf_iff_prefix.2 (List.prefix_append _ _)
  have hlen : password (secret n) = (secret n).length := by
    rw [password, if_pos hprefix, drop_secret, List.takeWhile_replicate, if_pos (by decide), secret]
  have hne : (secret n).length ≠ 0 := by rw [length_secret]; omega
  have hcons : secret n = 'p' :: (secret n).tail := rfl
  rw [hcons] at hlen hne
  rw [hcons, scan, hlen, if_neg hne, List.take_length, List.drop_length, scan]

/-- A text without the letter `p` starts no password. -/
theorem scan_before {s rest : List Char} (hs : 'p' ∉ s) :
    scan password (s ++ rest) = s.map .plain ++ scan password rest := by
  refine scan_append_plain password fun t ht hne => ?_
  cases t with
  | nil => exact absurd rfl hne
  | cons c t =>
    have hc : 'p' ≠ c := by
      rintro rfl
      exact hs (ht.subset List.mem_cons_self)
    rw [password, List.cons_append, password_key, if_neg (by simp [hc])]

/-- A line, and a password that is as long as what is kept. -/
def late_password : List Char := "x\n".toList ++ secret (MAX_CHARS - 9)

theorem length_late_password : late_password.length = MAX_CHARS + 2 := by
  have hmax : MAX_CHARS = 4096 := rfl
  have hline : "x\n".toList.length = 2 := rfl
  rw [late_password, List.length_append, length_secret]
  omega

theorem cut_late_password : cut MAX_CHARS late_password = marker ++ secret (MAX_CHARS - 9) := by
  have hlen := length_late_password
  rw [cut_long (by omega), hlen, Nat.add_sub_cancel_left, late_password]
  exact congrArg (marker ++ ·) (List.drop_left' rfl)

theorem scan_late_password : scan password late_password =
    "x\n".toList.map .plain ++ [.secret (secret (MAX_CHARS - 9))] := by
  rw [late_password, scan_before (by decide), scan_secret]

/-- The line is cut off, and the password is replaced as in the whole traceback. -/
theorem failed_event_safe_cut : MAX_CHARS < late_password.length ∧ passwords.InMatch late_password 2 ∧
    Safe passwords MAX_CHARS late_password := by
  have hlen := length_late_password
  refine ⟨by omega, ?_, ?_⟩
  · have hsplit : passwords.split late_password = _ := scan_late_password
    rw [Engine.InMatch, hsplit]
    rfl
  · have hsafe := (failed_event_safe_iff passwords_engine passwords runs_passwords
      (String.ofList late_password)).2.2.1 password ("x\n".toList.map .plain) [.secret (secret (MAX_CHARS - 9))]
      (marker.map .plain) [.secret (secret (MAX_CHARS - 9))] rfl
    rw [String.toList_ofList] at hsafe
    refine hsafe scan_late_password ?_ ?_ (text_plain marker)
    · rw [text_plain, hlen, Nat.add_sub_cancel_left]
      exact (List.take_left' rfl).symm
    · rw [cut_late_password, scan_before (by decide), scan_secret]

/-- Without its key nothing of it is recognized. -/
theorem scan_keyless (n : Nat) : scan password (marker ++ List.replicate n 'x') =
    (marker ++ List.replicate n 'x').map .plain := by
  refine scan_plain password fun t ht _ => ?_
  rw [password, if_neg]
  intro hp
  have hmem : 'p' ∈ marker ++ List.replicate n 'x' :=
    ht.subset ((List.isPrefixOf_iff_prefix.1 hp).subset List.mem_cons_self)
  rw [List.mem_append, List.mem_replicate] at hmem
  rcases hmem with hmem | ⟨-, hx⟩
  · exact absurd hmem (by decide)
  · exact absurd hx (by decide)

theorem cut_secret (n : Nat) : cut n (secret n) = marker ++ List.replicate n 'x' := by
  have hlen := length_secret n
  rw [cut_long (by omega), hlen, Nat.add_sub_cancel, drop_secret]

/-- A password so long that its key is cut off: the engine replaces all of it in
the whole traceback, and nothing of it in the event. -/
theorem failed_event_exposes_password :
    passwords.scrub (secret MAX_CHARS) = "[REDACTED]".toList ∧
    ((Mapper.build_task_failed_event .plain passwords_engine
      (.str "t1") (.val (.str "app.add")) ⟨"ValueError", "boom"⟩ none (.str (String.ofList (secret MAX_CHARS))) .none
      .none).toOption.bind fun ev => lookup "traceback" ev.data) =
      some (.str (String.ofList (marker ++ List.replicate MAX_CHARS 'x'))) ∧
    ¬ Safe passwords MAX_CHARS (secret MAX_CHARS) := by
  have hsplit : passwords.split (secret MAX_CHARS) = [.secret (secret MAX_CHARS)] := scan_secret MAX_CHARS
  have hplain : passwords.split (cut MAX_CHARS (secret MAX_CHARS)) = (cut MAX_CHARS (secret MAX_CHARS)).map .plain := by
    rw [cut_secret]
    exact scan_keyless MAX_CHARS
  refine ⟨by rw [Engine.scrub, hsplit, replace_secret]; rfl, ?_, ?_⟩
  · cases hev : Mapper.build_task_failed_event .plain
      passwords_engine (.str "t1") (.val (.str "app.add")) ⟨"ValueError", "boom"⟩ none
      (.str (String.ofList (secret MAX_CHARS))) .none .none with
    | error e =>
      rw [build_task_failed_event_str] at hev
      cases hev
    | ok ev =>
      have htraceback := failed_event_traceback runs_passwords hev
      rw [emitted_text, String.toList_ofList, Engine.scrub, hplain, replace_plain, cut_secret] at htraceback
      exact htraceback
  · intro hsafe
    have hlen := length_secret MAX_CHARS
    have hpos : 0 < MAX_CHARS := by decide
    rcases (safe_iff _ _ _).1 hsafe with hle | hcover
    · omega
    · exact Engine.not_inMatch_plain hplain _ (hcover 0 hpos (Engine.inMatch_secret hsplit (by omega)))

end Z4jCelery.Tracebacks
