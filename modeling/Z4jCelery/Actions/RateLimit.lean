import Z4jCelery.Offload
import Z4jCelery.Lib.Regex
import Z4jCelery.Py.Number
import Mathlib.Tactic.Common
/-!
# Setting a rate limit

`rate_limit_action` checks the rate against a regular expression and broadcasts
it. Every call of `control.rate_limit` is recorded.

The documented rates are `0` and a decimal integer without leading zero, with
or without a unit. The expression's `\d` matches every Unicode decimal digit
and its `$` before a last newline, so it accepts more (`rate_grammar_iff`).
-/

namespace Z4jCelery.Actions.RateLimit

open Py Z4jCelery.Core Offload Lib Regex RegularExpression

/-! ## The expression -/

/-- `\d`: the decimal digits of every script. -/
def DIGITS (py : Interp) : List Char := py.digits.zeros.flatMap fun z => (List.range 10).map fun d => Char.ofNat (z + d)

def ONE_TO_NINE : List Char := ['1', '2', '3', '4', '5', '6', '7', '8', '9']

def UNITS : List Char := ['s', 'm', 'h']

/-- `0|[1-9]\d*(?:/[smh])?`, for the digits that `\d` stands for. -/
def rate_re (digits : List Char) : RegularExpression Char :=
  char '0' + ofClass ONE_TO_NINE * (star (ofClass digits) * opt (char '/' * ofClass UNITS))

/-- `_RATE_RE.match(rate)`. -/
def RATE_RE_match (py : Interp) (rate : String) : Bool := matchLine '\n' (rate_re (DIGITS py)) rate.toList

/-! ## The action -/

/-- A call of `control.rate_limit`. -/
structure Broadcast where
  task_name : String
  rate : String
  destination : Option (List String)
  deriving DecidableEq

/-- `rate_limit` is what reading `celery_app.control.rate_limit` gives. -/
structure App where
  rate_limit : Except Exn (Broadcast → Except Exn Unit)

def BROADCAST_TIMEOUT : Nat := 10

def missingTask : CommandResult := .fail "rate_limit: task_name is required"

def invalidRate (py : Interp) (rate : String) : CommandResult :=
  .fail ("rate_limit: invalid rate " ++ py.repr (.str rate) ++ " - use '0' to clear, or '<n>', '<n>/s', '<n>/m', '<n>/h'")

/-- `[worker_name] if worker_name else None`. -/
def destination (worker_name : Option String) : Option (List String) :=
  (worker_name.filter (· ≠ "")).map fun name => [name]

def call (limit : Broadcast → Except Exn Unit) (b : Broadcast) : PyM (List Broadcast) Unit := do
  modify (· ++ [b])
  ofOutcome (limit b)

/-- What the action answers to an exception of the broadcast. -/
def broadcast_failure (exc : Exn) : CommandResult :=
  if exc.isa offloadTimeoutError.cls then
    indeterminate_timeout_result "rate_limit broadcast" BROADCAST_TIMEOUT
      "the rate limit may still be applied to some workers"
  else .fail ("rate_limit broadcast failed: " ++ exc.name)

def rate_limit_success (task_name rate : String) (worker_name : Option String) : CommandResult :=
  .succeed [("task_name", .str task_name), ("rate", .str rate), ("worker", (worker_name.map Val.str).getD .none)]

/-- The broadcast, once the arguments are accepted. -/
def broadcast (app : App) (timing : Timing) (task_name rate : String) (worker_name : Option String) :
    PyM (List Broadcast) CommandResult :=
  tryExcept (do
      let limit ← ofOutcome app.rate_limit
      offload timing (call limit ⟨task_name, rate, destination worker_name⟩)
      return rate_limit_success task_name rate worker_name)
    fun exc => return broadcast_failure exc

def rate_limit_action (py : Interp) (app : App) (timing : Timing) (task_name rate : String)
    (worker_name : Option String) : PyM (List Broadcast) CommandResult :=
  if task_name = "" then return missingTask
  else if ¬ RATE_RE_match py rate then return invalidRate py rate
  else broadcast app timing task_name rate worker_name

/-! ## The grammar -/

/-- A rate without anything before or after, for a class of digits. -/
def Rate (digits : Char → Prop) (rate : List Char) : Prop :=
  rate = ['0'] ∨ ∃ first more unit, rate = first :: more ++ unit ∧ first ∈ ONE_TO_NINE ∧ (∀ d ∈ more, digits d) ∧
    (unit = [] ∨ ∃ u ∈ UNITS, unit = ['/', u])

def asciiDigit (c : Char) : Prop := c ∈ ['0', '1', '2', '3', '4', '5', '6', '7', '8', '9']

/-- A decimal digit of some script. -/
def decimalDigit (py : Interp) (c : Char) : Prop := (digit py c).isSome = true

def Documented (rate : String) : Prop := Rate asciiDigit rate.toList

theorem rate_re_iff (digits : List Char) (x : List Char) :
    (rate_re digits).rmatch x = true ↔ Rate (· ∈ digits) x := by
  rw [rate_re, add_rmatch_iff, char_rmatch_iff, mul_rmatch_iff, Rate]
  refine or_congr_right ?_
  constructor
  · rintro ⟨t, u, rfl, ht, hu⟩
    obtain ⟨first, hfirst, rfl⟩ := (ofClass_rmatch_iff _ _).1 ht
    obtain ⟨more, unit, rfl, hmore, hunit⟩ := (mul_rmatch_iff _ _ _).1 hu
    refine ⟨first, more, unit, rfl, hfirst, (star_ofClass_rmatch_iff _ _).1 hmore, ?_⟩
    rcases (opt_rmatch_iff _ _).1 hunit with h | h
    · exact .inl h
    · obtain ⟨slash, v, rfl, hslash, hv⟩ := (mul_rmatch_iff _ _ _).1 h
      obtain rfl := (char_rmatch_iff _ _).1 hslash
      obtain ⟨w, hw, rfl⟩ := (ofClass_rmatch_iff _ _).1 hv
      exact .inr ⟨w, hw, rfl⟩
  · rintro ⟨first, more, unit, rfl, hfirst, hmore, hunit⟩
    refine ⟨[first], more ++ unit, rfl, (ofClass_rmatch_iff _ _).2 ⟨first, hfirst, rfl⟩, ?_⟩
    rw [mul_rmatch_iff]
    refine ⟨more, unit, rfl, (star_ofClass_rmatch_iff _ _).2 hmore, (opt_rmatch_iff _ _).2 ?_⟩
    rcases hunit with rfl | ⟨w, hw, rfl⟩
    · exact .inl rfl
    · right
      rw [mul_rmatch_iff]
      exact ⟨['/'], [w], rfl, (char_rmatch_iff _ _).2 rfl, (ofClass_rmatch_iff _ _).2 ⟨w, hw, rfl⟩⟩

section Digits
variable {py : Interp}

theorem decimalDigit_iff {c : Char} : decimalDigit py c ↔ ∃ z ∈ py.digits.zeros, z ≤ c.toNat ∧ c.toNat ≤ z + 9 := by
  rw [decimalDigit, digit, Option.isSome_map, List.find?_isSome]
  simp

theorem mem_DIGITS {c : Char} : c ∈ DIGITS py ↔ decimalDigit py c := by
  simp only [decimalDigit_iff, DIGITS, List.mem_flatMap, List.mem_map, List.mem_range]
  refine exists_congr fun z => and_congr_right fun hz => ?_
  constructor
  · rintro ⟨d, hd, rfl⟩
    have hchar : (z + d).isValidChar := by
      rcases py.digits.valid z hz with h | h
      · exact .inl (by omega)
      · exact .inr ⟨by omega, by omega⟩
    have hnat : (Char.ofNat (z + d)).toNat = z + d := by
      rw [Char.ofNat, dif_pos hchar]
      rfl
    omega
  · rintro ⟨hlow, hhigh⟩
    exact ⟨c.toNat - z, by omega, by rw [Nat.add_sub_cancel' hlow, Char.ofNat_toNat]⟩

theorem asciiDigit_toNat {c : Char} (h : asciiDigit c) : 48 ≤ c.toNat ∧ c.toNat ≤ 57 := by
  have hall : ['0', '1', '2', '3', '4', '5', '6', '7', '8', '9'].all
      (fun d => decide (48 ≤ d.toNat ∧ d.toNat ≤ 57)) = true := by decide
  exact of_decide_eq_true (List.all_eq_true.1 hall c h)

theorem asciiDigit.decimal {c : Char} (h : asciiDigit c) : decimalDigit py c :=
  decimalDigit_iff.2 ⟨48, py.digits.ascii, asciiDigit_toNat h⟩

/-- In its range ASCII has no other digits. -/
theorem decimalDigit.ascii {c : Char} (h : decimalDigit py c) (hc : c.toNat ≤ 127) : 48 ≤ c.toNat ∧ c.toNat ≤ 57 := by
  obtain ⟨z, hz, hlow, hhigh⟩ := decimalDigit_iff.1 h
  rcases py.digits.apart z hz with rfl | h127
  · exact ⟨hlow, hhigh⟩
  · omega

theorem RATE_RE_match_iff (rate : String) : RATE_RE_match py rate = true ↔
    ∃ body rest, rate.toList = body ++ rest ∧ (rest = [] ∨ rest = ['\n']) ∧ Rate (decimalDigit py) body := by
  rw [RATE_RE_match, matchLine_iff]
  have hdigits : (fun c => c ∈ DIGITS py) = decimalDigit py := funext fun c => propext mem_DIGITS
  simp only [rate_re_iff, hdigits]

end Digits

/-! ## What the expression accepts beyond the grammar -/

/-- Accepted, with a last newline or a digit of another script. -/
def Stray (py : Interp) (rate : String) : Prop :=
  ∃ body rest, rate.toList = body ++ rest ∧ (rest = [] ∨ rest = ['\n']) ∧ Rate (decimalDigit py) body ∧
    (rest = ['\n'] ∨ ∃ d ∈ body, decimalDigit py d ∧ ¬ asciiDigit d)

theorem Rate.mono {P Q : Char → Prop} (hPQ : ∀ c, P c → Q c) {x : List Char} (h : Rate P x) : Rate Q x := by
  rcases h with h | ⟨first, more, unit, hx, hfirst, hmore, hunit⟩
  · exact .inl h
  · exact .inr ⟨first, more, unit, hx, hfirst, fun d hd => hPQ d (hmore d hd), hunit⟩

/-- The symbols of a documented rate. -/
theorem Rate.symbols {x : List Char} (h : Rate asciiDigit x) : ∀ c ∈ x, asciiDigit c ∨ c ∈ '/' :: UNITS := by
  rcases h with rfl | ⟨first, more, unit, rfl, hfirst, hmore, hunit⟩
  · intro c hc
    obtain rfl := List.mem_singleton.1 hc
    exact .inl (by unfold asciiDigit; decide)
  · intro c hc
    rw [List.mem_append, List.mem_cons] at hc
    rcases hc with (rfl | hc) | hc
    · have hsub : ONE_TO_NINE ⊆ ['0', '1', '2', '3', '4', '5', '6', '7', '8', '9'] := by decide
      exact .inl (hsub hfirst)
    · exact .inl (hmore c hc)
    · right
      rcases hunit with rfl | ⟨u, hu, rfl⟩
      · cases hc
      · rw [List.mem_cons, List.mem_singleton] at hc
        rcases hc with rfl | rfl
        · exact List.mem_cons_self
        · exact List.mem_cons_of_mem _ hu

theorem Documented.matches {py : Interp} {rate : String} (h : Documented rate) : RATE_RE_match py rate = true :=
  (RATE_RE_match_iff rate).2 ⟨rate.toList, [], (List.append_nil _).symm, .inl rfl, h.mono fun _ => asciiDigit.decimal⟩

/-- The rates accepted and not documented. -/
theorem stray_iff {py : Interp} (rate : String) : Stray py rate ↔ RATE_RE_match py rate = true ∧ ¬ Documented rate := by
  rw [RATE_RE_match_iff]
  constructor
  · rintro ⟨body, rest, hrate, hrest, hbody, hodd⟩
    refine ⟨⟨body, rest, hrate, hrest, hbody⟩, fun hdoc => ?_⟩
    have hsym := hdoc.symbols
    rw [hrate] at hsym
    rcases hodd with rfl | ⟨d, hd, hdec, hascii⟩
    · rcases hsym '\n' (by simp) with h | h
      · exact absurd h (by unfold asciiDigit; decide)
      · exact absurd h (by decide)
    · rcases hsym d (List.mem_append_left rest hd) with h | h
      · exact hascii h
      · -- neither the slash nor a unit is a digit
        have hnone : ('/' :: UNITS).all (fun c => decide (c.toNat ≤ 127 ∧ (c.toNat < 48 ∨ 57 < c.toNat))) = true := by
          decide
        obtain ⟨hrange, hout⟩ := of_decide_eq_true (List.all_eq_true.1 hnone d h)
        have hin := hdec.ascii hrange
        omega
  · rintro ⟨⟨body, rest, hrate, hrest, hbody⟩, hdoc⟩
    refine ⟨body, rest, hrate, hrest, hbody, ?_⟩
    rcases hrest with rfl | h
    · right
      by_contra hno
      push Not at hno
      refine hdoc ?_
      rw [List.append_nil] at hrate
      rw [Documented, hrate]
      rcases hbody with h | ⟨first, more, unit, rfl, hfirst, hmore, hunit⟩
      · exact .inl h
      · exact .inr ⟨first, more, unit, rfl, hfirst, fun d hd => hno d (by simp [hd]) (hmore d hd), hunit⟩
    · exact .inl h

/-! ## What is broadcast -/

section Action
variable {py : Interp} {task_name rate : String} {worker_name : Option String} (h : task_name ≠ "")
include h

theorem rate_limit_refused {app : App} {timing : Timing} (hm : RATE_RE_match py rate = false) (calls : List Broadcast) :
    rate_limit_action py app timing task_name rate worker_name calls = .ok (invalidRate py rate) calls := by
  rw [rate_limit_action, if_neg h, if_pos (by simp [hm])]
  rfl

/-- A call that gets to run is issued, whatever comes of it. -/
theorem rate_limit_issued {limit : Broadcast → Except Exn Unit} {timing : Timing} (ht : timing ≠ .outlives false)
    (hm : RATE_RE_match py rate = true) (calls : List Broadcast) :
    final (rate_limit_action py ⟨.ok limit⟩ timing task_name rate worker_name calls) =
      calls ++ [⟨task_name, rate, destination worker_name⟩] := by
  rw [rate_limit_action, if_neg h, if_neg (by simp [hm]), broadcast, ofOutcome_ok, tryExcept, bind_ok (pure_apply _ _)]
  generalize hb : (⟨task_name, rate, destination worker_name⟩ : Broadcast) = b
  have hcall : final (call limit b calls) = calls ++ [b] := by
    rw [call, bind_ok (modify_apply _ calls), ofOutcome_apply]
    cases limit b <;> rfl
  have hoff : final (offload timing (call limit b) calls) = calls ++ [b] := by
    cases timing with
    | outlives runs =>
      cases runs with
      | false => exact absurd rfl ht
      | true => exact hcall
    | inTime =>
      cases hc : call limit b calls with
      | ok a s => rw [offload_ok hc, final_ok, ← hcall, hc, final_ok]
      | error e s => rw [offload_error hc, final_error, ← hcall, hc, final_error]
  cases ho : offload timing (call limit b) calls with
  | ok a s => rw [bind_ok ho, ← hoff, ho]; rfl
  | error e s => rw [bind_error ho, ← hoff, ho]; rfl

end Action

/-- The documented rates, and no others, are broadcast; a rate that is not
documented is refused. -/
structure GrammarHolds (py : Interp) (limit : Broadcast → Except Exn Unit) (task_name rate : String)
    (worker_name : Option String) : Prop where
  issued : ∀ timing, timing ≠ .outlives false → ∀ calls,
    (final (rate_limit_action py ⟨.ok limit⟩ timing task_name rate worker_name calls) =
      calls ++ [⟨task_name, rate, destination worker_name⟩] ↔ Documented rate)
  refused : ¬ Documented rate → ∀ timing calls,
    rate_limit_action py ⟨.ok limit⟩ timing task_name rate worker_name calls = .ok (invalidRate py rate) calls

/-- The grammar is accepted exactly, but for rates with a last newline or a
digit of another script. -/
theorem rate_grammar_iff (py : Interp) (limit : Broadcast → Except Exn Unit) {task_name : String} (h : task_name ≠ "")
    (rate : String) (worker_name : Option String) :
    GrammarHolds py limit task_name rate worker_name ↔ ¬ Stray py rate := by
  rw [stray_iff]
  constructor
  · rintro hg ⟨hm, hdoc⟩
    have hrun : Timing.inTime ≠ .outlives false := nofun
    have hissued := @rate_limit_issued py task_name rate worker_name h limit .inTime hrun hm []
    exact hdoc ((hg.issued .inTime hrun []).1 hissued)
  · intro hstray
    have hiff : RATE_RE_match py rate = true ↔ Documented rate :=
      ⟨fun hm => not_not.1 fun hdoc => hstray ⟨hm, hdoc⟩, Documented.matches⟩
    have hno : ¬ Documented rate → RATE_RE_match py rate = false := fun hdoc => by simpa using mt hiff.1 hdoc
    refine ⟨fun timing ht calls => ⟨fun hf => ?_, fun hdoc => rate_limit_issued h ht (hiff.2 hdoc) calls⟩,
      fun hdoc timing calls => rate_limit_refused h (hno hdoc) calls⟩
    by_contra hdoc
    rw [rate_limit_refused h (hno hdoc), final_ok] at hf
    simp at hf

/-- An application whose broadcasts return. -/
def quietApp : App := ⟨.ok fun _ => .ok ()⟩

theorem documented_rate_broadcast :
    let py : Interp := .plain
    final (rate_limit_action py quietApp .inTime "app.send" "100/m" (some "celery@web-01") []) =
      [⟨"app.send", "100/m", some ["celery@web-01"]⟩] := by
  intro py
  have hdoc : Documented "100/m" :=
    .inr ⟨'1', ['0', '0'], ['/', 'm'], rfl, by decide, by simp [asciiDigit], .inr ⟨'m', by decide, rfl⟩⟩
  have hno : ¬ Stray py "100/m" := fun h => ((stray_iff _).1 h).2 hdoc
  have hgrammar := (rate_grammar_iff py (fun _ => .ok ()) (by decide : "app.send" ≠ "") "100/m" (some "celery@web-01")).2 hno
  exact (hgrammar.issued .inTime nofun []).2 hdoc

/-- A rate with a line break after it, and one with an Arabic digit: both are
broadcast, and neither is documented. -/
theorem stray_rates_broadcast :
    let py : Interp := .plain
    let broadcasts (rate : String) : List Broadcast :=
      final (rate_limit_action py quietApp .inTime "app.send" rate none [])
    broadcasts "5/s\n" = [⟨"app.send", "5/s\n", none⟩] ∧ broadcasts "1\u0663" = [⟨"app.send", "1\u0663", none⟩] ∧
      ¬ Documented "5/s\n" ∧ ¬ Documented "1\u0663" := by
  intro py broadcasts
  have issued (rate : String) (hm : RATE_RE_match py rate = true) : broadcasts rate = [⟨"app.send", rate, none⟩] := by
    have hrun : Timing.inTime ≠ .outlives false := nofun
    exact @rate_limit_issued py "app.send" rate none (by decide) _ .inTime hrun hm []
  have hdigit : Rate (decimalDigit py) ['1', '\u0663'] := by
    refine .inr ⟨'1', ['\u0663'], [], rfl, by decide, fun d hd => ?_, .inl rfl⟩
    obtain rfl := List.mem_singleton.1 hd
    show (digit .plain '\u0663').isSome = true
    decide +kernel
  have hunit : Rate (decimalDigit py) ['5', '/', 's'] := .inr ⟨'5', [], ['/', 's'], rfl, by decide, by simp, .inr ⟨'s', by decide, rfl⟩⟩
  have hnewline := (stray_iff "5/s\n").1 ⟨['5', '/', 's'], ['\n'], rfl, .inr rfl, hunit, .inl rfl⟩
  have harabic := (stray_iff "1\u0663").1 ⟨['1', '\u0663'], [], rfl, .inl rfl, hdigit, .inr ⟨'\u0663', by simp, by
    unfold decimalDigit asciiDigit
    decide +kernel⟩⟩
  exact ⟨issued _ hnewline.1, issued _ harabic.1, hnewline.2, harabic.2⟩

end Z4jCelery.Actions.RateLimit
