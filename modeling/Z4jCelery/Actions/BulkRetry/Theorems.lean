import Z4jCelery.Actions.BulkRetry
import Z4jCelery.Actions.Retry.Theorems
import Z4jCelery.Lib.Breaker
import Mathlib.Data.List.Infix
/-!
# What a bulk retry does

`run_loops_eq`: the batched loops are one flat loop over the capped ids, cut
where the circuit breaker stops it. `made` lists the retries of that loop, and
the other facts are read off it.
-/

namespace Z4jCelery.Actions.BulkRetry

open Py Z4jCelery.Core Lib Breaker

/-! ## The flat specification -/

def classify (single : CommandResult) : Outcome :=
  if single.indeterminate then .indeterminate else if single.status = .success then .success else .failure

/-- Every id retried in order, with the answers from the `i`-th on. -/
def results (single : Single) (req : Request) : Nat → List String → List (Call × CommandResult)
  | _, [] => []
  | i, tid :: tids => (call_for req tid, single i (call_for req tid)) :: results single req (i + 1) tids

/-- The outcomes of retrying every capped id. -/
def outcomes (single : Single) (req : Request) : List Outcome :=
  (results single req 0 (capped_ids req)).map fun x => classify x.2

/-- The retries up to where the breaker stops. -/
def made (single : Single) (req : Request) : List (Call × CommandResult) :=
  (results single req 0 (capped_ids req)).take (stop circuit_break_after 0 (outcomes single req)).1

/-- The retries that returned a new id: the old id and the new one. -/
def renewed (l : List (Call × CommandResult)) : List (String × String) :=
  l.filterMap fun x => (new_task_id x.2).map fun new_id => (x.1.task_id, new_id)

/-- The retries that did not: the id and the error. -/
def failed (l : List (Call × CommandResult)) : List (String × String) :=
  l.filterMap fun x => if new_task_id x.2 = none then some (x.1.task_id, failure x.2) else none

theorem results_length (single : Single) (req : Request) (i : Nat) (tids : List String) :
    (results single req i tids).length = tids.length := by
  induction tids generalizing i with
  | nil => rfl
  | cons tid tids ih => rw [results, List.length_cons, List.length_cons, ih]

theorem results_calls (single : Single) (req : Request) (i : Nat) (tids : List String) :
    (results single req i tids).map Prod.fst = tids.map (call_for req) := by
  induction tids generalizing i with
  | nil => rfl
  | cons tid tids ih => rw [results, List.map_cons, List.map_cons, ih]

theorem outcomes_length (single : Single) (req : Request) : (outcomes single req).length = (capped_ids req).length := by
  rw [outcomes, List.length_map, results_length]

theorem renewed_failed_length (l : List (Call × CommandResult)) :
    (renewed l).length + (failed l).length = l.length := by
  induction l with
  | nil => rfl
  | cons x l ih =>
    cases h : new_task_id x.2 <;> simp only [renewed, failed, List.filterMap_cons, h] at ih ⊢ <;> simp <;> omega

/-! ## The loops -/

def recordAll (s : Loop) (l : List (Call × CommandResult)) : Loop := l.foldl (fun s x => record s x.1 x.2) s

theorem record_timeouts (s : Loop) (call : Call) (single : CommandResult) :
    (record s call single).consecutive_timeouts = bump s.consecutive_timeouts (classify single) := by
  simp only [record, classify]
  split
  · rfl
  · split <;> rfl

/-- The loop's variables, with the breaker's verdict. -/
def Loop.verdict (s : Loop) (broken : Bool) : Loop := { s with broker_unhealthy := broken }

/-- A batch is the flat loop over its ids. -/
theorem run_batch_eq (single : Single) (req : Request) (tids : List String) (s : Loop)
    (hs : s.broker_unhealthy = false) :
    run_batch single req tids s =
      (recordAll s ((results single req s.processed tids).take
        (stop circuit_break_after s.consecutive_timeouts
          ((results single req s.processed tids).map fun x => classify x.2)).1)).verdict
        (stop circuit_break_after s.consecutive_timeouts
          ((results single req s.processed tids).map fun x => classify x.2)).2 := by
  induction tids generalizing s with
  | nil =>
    obtain ⟨_, _, _, b, _, _⟩ := s
    simp only at hs
    subst hs
    rfl
  | cons tid tids ih =>
    -- the counter after this retry decides in the loop and in `stop` alike
    rw [run_batch, results, List.map_cons, stop]
    by_cases hk : circuit_break_after ≤
        bump s.consecutive_timeouts (classify (single s.processed (call_for req tid)))
    · rw [if_pos hk]
      exact if_pos (record_timeouts _ _ _ ▸ hk)
    · rw [if_neg hk]
      refine (if_neg (record_timeouts _ _ _ ▸ hk)).trans ?_
      rw [ih _ (by simpa [record] using hs), record_timeouts]
      rfl

theorem run_batch_append (single : Single) (req : Request) (xs ys : List String) (s : Loop)
    (hs : s.broker_unhealthy = false) :
    run_batch single req (xs ++ ys) s =
      if (run_batch single req xs s).broker_unhealthy then run_batch single req xs s
      else run_batch single req ys (run_batch single req xs s) := by
  induction xs generalizing s with
  | nil => simp [run_batch, hs]
  | cons tid xs ih =>
    simp only [List.cons_append, run_batch]
    split
    · simp
    · exact ih _ (by simpa [record] using hs)

theorem run_batches_broken (single : Single) (req : Request) (ids : List String) (starts : List Nat) (s : Loop)
    (hs : s.broker_unhealthy = true) : run_batches single req ids starts s = s := by
  cases starts with
  | nil => rfl
  | cons start starts => rw [run_batches, if_pos hs]

/-- `k` batches from the `a`-th on are one batch of their ids. -/
theorem run_batches_eq (single : Single) (req : Request) (ids : List String) (k a : Nat) (s : Loop)
    (hs : s.broker_unhealthy = false) :
    run_batches single req ids ((List.range' a k).map (· * 100)) s =
      run_batch single req ((ids.drop (a * 100)).take (k * 100)) s := by
  induction k generalizing a s with
  | zero => simp [run_batches, run_batch]
  | succ k ih =>
    have split_ids : (ids.drop (a * 100)).take ((k + 1) * 100) =
        (ids.drop (a * 100)).take 100 ++ (ids.drop ((a + 1) * 100)).take (k * 100) := by
      rw [show (k + 1) * 100 = 100 + k * 100 by omega, List.take_add, List.drop_drop,
        show a * 100 + 100 = (a + 1) * 100 by omega]
    rw [List.range'_succ, List.map_cons, run_batches, hs, if_neg Bool.false_ne_true, split_ids,
      run_batch_append _ _ _ _ _ hs]
    -- a broken batch ends the outer loop as it ends the longer batch
    cases hb : (run_batch single req ((ids.drop (a * 100)).take 100) s).broker_unhealthy with
    | true => rw [if_pos rfl, run_batches_broken _ _ _ _ _ hb]
    | false => rw [if_neg Bool.false_ne_true, ih _ _ hb]

theorem run_loops_eq (single : Single) (req : Request) :
    run_loops single req = (recordAll Loop.start (made single req)).verdict
      (stop circuit_break_after 0 (outcomes single req)).2 := by
  rw [run_loops, batch_starts, List.range_eq_range', run_batches_eq _ _ _ _ _ _ rfl, List.take_of_length_le]
  · rw [Nat.zero_mul, List.drop_zero, run_batch_eq _ _ _ _ rfl]
    rfl
  · rw [List.length_drop]
    omega

/-! ## What the loop recorded -/

theorem recordAll_snoc (s : Loop) (l : List (Call × CommandResult)) (x : Call × CommandResult) :
    recordAll s (l ++ [x]) = record (recordAll s l) x.1 x.2 := by
  simp [recordAll]

theorem recordAll_start (l : List (Call × CommandResult)) :
    (recordAll Loop.start l).calls = l.map Prod.fst ∧ (recordAll Loop.start l).processed = l.length ∧
      (recordAll Loop.start l).new_task_ids = Dict.ofPairs (renewed l) ∧
      (recordAll Loop.start l).failures = Dict.ofPairs (failed l) := by
  induction l using List.reverseRecOn with
  | nil => exact ⟨rfl, rfl, rfl, rfl⟩
  | append_singleton l x ih =>
    obtain ⟨hcalls, hprocessed, hnew, hfail⟩ := ih
    rw [recordAll_snoc]
    cases h : new_task_id x.2 with
    | none => simp [record, renewed, failed, h, hcalls, hprocessed, Dict.ofPairs_snoc, hnew, hfail]
    | some new_id => simp [record, renewed, failed, h, hcalls, hprocessed, Dict.ofPairs_snoc, hnew, hfail]

theorem calls_eq (single : Single) (req : Request) : (run_loops single req).calls = (made single req).map Prod.fst := by
  rw [run_loops_eq]
  exact (recordAll_start _).1

theorem made_length (single : Single) (req : Request) :
    (made single req).length = (stop circuit_break_after 0 (outcomes single req)).1 := by
  rw [made, List.length_take, results_length, ← outcomes_length single req, Nat.min_eq_left (stop_le _ _ _)]

theorem made_calls (single : Single) (req : Request) :
    (made single req).map Prod.fst = ((capped_ids req).take (made single req).length).map (call_for req) := by
  rw [made_length, made, List.map_take, results_calls, List.map_take]

theorem made_length_le (single : Single) (req : Request) : (made single req).length ≤ (capped_ids req).length := by
  rw [made_length, ← outcomes_length single req]
  exact stop_le _ _ _

/-- The summary is a function of the retries that were made. -/
theorem summary_eq (single : Single) (req : Request) :
    summary single req =
      { filter := req.filter
        requested := (capped_ids req).length
        succeeded := (Dict.ofPairs (renewed (made single req))).length
        failed := (Dict.ofPairs (failed (made single req))).length
        skipped := (capped_ids req).length - (made single req).length
        circuit_broken := (stop circuit_break_after 0 (outcomes single req)).2
        capped := capped req
        new_task_ids := Dict.ofPairs (renewed (made single req))
        failures := Dict.ofPairs (failed (made single req)) } := by
  obtain ⟨-, hprocessed, hnew, hfail⟩ := recordAll_start (made single req)
  rw [summary, run_loops_eq, ← hprocessed, ← hnew, ← hfail]
  rfl

theorem bulk_retry_action_nil (single : Single) {req : Request} (h : ids req = []) :
    bulk_retry_action single req = (noTaskIds, []) := by
  rw [bulk_retry_action, if_pos h]

theorem bulk_retry_action_cons (single : Single) {req : Request} (h : ids req ≠ []) :
    bulk_retry_action single req = ((summary single req).result, (made single req).map Prod.fst) := by
  rw [bulk_retry_action, if_neg h, calls_eq]

/-! ## The cap -/

/-- The cap that the command promises. -/
def bound (req : Request) : Int := min (max req.max 0) BULK_RETRY_HARD_CAP

/-- At most `bound` retries, of a prefix of the ids, and `capped` says whether
the list was longer. -/
def CapHolds (single : Single) (req : Request) : Prop :=
  ((bulk_retry_action single req).2.length : Int) ≤ bound req ∧
    (bulk_retry_action single req).2.map Call.task_id <+: ids req ∧
    ((bulk_retry_action single req).1.field "capped" = .bool true ↔ bound req < (ids req).length)

theorem capped_ids_initial (req : Request) : capped_ids req <+: ids req := by
  rw [capped_ids]
  split
  · exact List.take_prefix _ _
  · exact List.prefix_rfl

theorem made_ids (single : Single) (req : Request) :
    ((made single req).map Prod.fst).map Call.task_id = (capped_ids req).take (made single req).length := by
  rw [made_calls, List.map_map]
  exact List.map_id _

/-- The first id is retried whatever it answers. -/
theorem made_pos (single : Single) {req : Request} (h : capped_ids req ≠ []) : 0 < (made single req).length := by
  obtain ⟨tid, tids, ht⟩ := List.exists_cons_of_ne_nil h
  rw [made_length, outcomes, ht, results, List.map_cons, stop]
  split <;> simp

theorem field_capped (m : Summary) : m.result.field "capped" = .bool m.capped := rfl

theorem capped_iff (req : Request) : capped req = true ↔ effective_cap req < (ids req).length := by
  simp [capped]

theorem made_prefix (single : Single) (req : Request) : (capped_ids req).take (made single req).length <+: ids req :=
  (List.take_prefix _ _).trans (capped_ids_initial req)

/-- No ids: nothing is retried. -/
theorem capHolds_nil (single : Single) {req : Request} (h : ids req = []) : CapHolds single req := by
  have hfield : noTaskIds.field "capped" ≠ .bool true := by decide
  rw [CapHolds, bulk_retry_action_nil single h, h]
  simp only [List.length_nil, List.map_nil, List.nil_prefix, hfield, false_iff, true_and, bound, BULK_RETRY_HARD_CAP]
  omega

theorem capHolds_cons_iff (single : Single) {req : Request} (h : ids req ≠ []) :
    CapHolds single req ↔ ((made single req).length : Int) ≤ bound req ∧
      (effective_cap req < (ids req).length ↔ bound req < (ids req).length) := by
  rw [CapHolds, bulk_retry_action_cons single h, made_ids, field_capped, summary_eq, Val.bool.injEq, capped_iff,
    List.length_map]
  exact ⟨fun ⟨h1, _, h3⟩ => ⟨h1, h3⟩, fun ⟨h1, h3⟩ => ⟨h1, made_prefix single req, h3⟩⟩

theorem capHolds_of_nonneg (single : Single) {req : Request} (h : 0 ≤ req.max) : CapHolds single req := by
  by_cases hids : ids req = []
  · exact capHolds_nil single hids
  have hmade := made_length_le single req
  have heff : 0 ≤ effective_cap req := by rw [effective_cap, BULK_RETRY_HARD_CAP]; omega
  have hclen : ((capped_ids req).length : Int) ≤ effective_cap req := by
    rw [capped_ids]
    split
    · rw [sliceTo_nonneg _ _ heff, List.length_take]
      omega
    · rename_i hc
      rw [capped_iff] at hc
      omega
  rw [capHolds_cons_iff single hids]
  simp only [bound, effective_cap, BULK_RETRY_HARD_CAP] at hclen ⊢
  omega

/-- A negative cap drops as many ids from the end, and retries the others. -/
theorem capHolds_neg_iff (single : Single) {req : Request} (h : req.max < 0) :
    CapHolds single req ↔ (ids req).length + req.max ≤ 0 := by
  by_cases hids : ids req = []
  · exact iff_of_true (capHolds_nil single hids) (by rw [hids, List.length_nil]; omega)
  have hlen : 0 < (ids req).length := List.length_pos_iff.2 hids
  have hmade := made_length_le single req
  have hpos : capped_ids req ≠ [] → 0 < (made single req).length := made_pos single
  -- a negative `max` passes the `min`, and the slice counts it from the end
  have heff : effective_cap req = req.max := by rw [effective_cap, BULK_RETRY_HARD_CAP]; omega
  have hclen : (capped_ids req).length = ((ids req).length + req.max).toNat := by
    rw [capped_ids, if_pos ((capped_iff req).2 (by omega)), heff, sliceTo_neg _ _ h, List.length_take]
    omega
  rw [← List.length_pos_iff] at hpos
  rw [capHolds_cons_iff single hids, heff]
  simp only [bound, BULK_RETRY_HARD_CAP]
  omega

/-- The cap is honoured by every command but one whose negative `max` leaves
some id. -/
theorem capHolds_iff (single : Single) (req : Request) :
    CapHolds single req ↔ 0 ≤ req.max ∨ (ids req).length + req.max ≤ 0 := by
  rcases Int.lt_or_le req.max 0 with hneg | hnonneg
  · rw [capHolds_neg_iff single hneg]
    omega
  · exact iff_of_true (capHolds_of_nonneg single hnonneg) (.inl hnonneg)

/-- One id of two is retried under a cap of minus one. -/
theorem negative_max_retries :
    ¬ CapHolds (fun _ _ => .fail "no such task") ⟨[], -1, some ["a", "b"], none⟩ := by
  intro h
  exact absurd h.1 (by decide)

/-! ## The circuit breaker -/

/-- What the summary should add up to. -/
structure Accounts (l : List (Call × CommandResult)) (m : Summary) : Prop where
  total : m.requested = m.succeeded + m.failed + m.skipped
  succeeded : m.succeeded = (renewed l).length
  reported : ∀ x ∈ renewed l, x.2 ∈ m.new_task_ids.values

theorem str_dict_inj {d e : Dict String String} (h : str_dict d = str_dict e) : d = e := by
  refine Dict.ext_items (List.map_injective_iff.2 ?_ (Val.dict.inj h))
  rintro ⟨k, v⟩ ⟨l, w⟩ hkv
  simpa using hkv

/-- The answer shows the whole summary. -/
theorem Summary.result_inj {m m' : Summary} (h : m.result = m'.result) : m = m' := by
  have hitems := Option.some.inj (congrArg CommandResult.result h)
  simp only [List.cons.injEq, Prod.mk.injEq, true_and, Val.dict.injEq, Val.int.injEq, Val.bool.injEq,
    Int.ofNat_inj, and_true] at hitems
  obtain ⟨h1, h2, h3, h4, h5, h6, h7, h8, h9⟩ := hitems
  cases m
  cases m'
  simp only at *
  subst h1 h2 h3 h4 h5 h6 h7
  rw [str_dict_inj h8, str_dict_inj h9]

theorem accounts_iff (single : Single) (req : Request) :
    Accounts (made single req) (summary single req) ↔
      ((renewed (made single req)).map Prod.fst).Nodup ∧ ((failed (made single req)).map Prod.fst).Nodup := by
  have hlen := renewed_failed_length (made single req)
  have hle := made_length_le single req
  have hfle := Dict.length_ofPairs_le (failed (made single req))
  rw [← Dict.length_ofPairs_iff, ← Dict.length_ofPairs_iff, summary_eq]
  constructor
  · rintro ⟨htotal, hsucc, -⟩
    simp only at htotal hsucc
    exact ⟨hsucc, by omega⟩
  · rintro ⟨hr, hf⟩
    refine ⟨by simp only; omega, hr, fun x hx => ?_⟩
    exact List.mem_map_of_mem (Dict.items_ofPairs ((Dict.length_ofPairs_iff _).1 hr) x hx)

/-- The summary adds up exactly when no id is renewed twice and none fails
twice. -/
theorem bulk_retry_accounts_iff (single : Single) (req : Request) :
    (∀ m : Summary, (bulk_retry_action single req).1 = m.result → Accounts (made single req) m) ↔
      ids req = [] ∨ (((renewed (made single req)).map Prod.fst).Nodup ∧
        ((failed (made single req)).map Prod.fst).Nodup) := by
  by_cases hids : ids req = []
  · rw [bulk_retry_action_nil single hids]
    refine ⟨fun _ => .inl hids, fun _ m hm => ?_⟩
    have hstatus : Status.failed = .success := congrArg CommandResult.status hm
    cases hstatus
  · rw [bulk_retry_action_cons single hids, ← accounts_iff]
    constructor
    · exact fun h => .inr (h _ rfl)
    · rintro (h | h) m hm
      · exact absurd h hids
      · exact Summary.result_inj hm ▸ h

/-- Both retries of an id that is listed twice return a new id, and the first
new id is lost. -/
theorem repeated_id_loses_new_id :
    let single : Single := fun i _ => Retry.retry_success "app.add" (if i = 0 then "n1" else "n2") none
    let req : Request := ⟨[], 10, some ["a", "a"], none⟩
    ¬ ∀ m : Summary, (bulk_retry_action single req).1 = m.result → Accounts (made single req) m := by
  intro single req h
  have hm := h (summary single req) (by decide)
  exact absurd hm.succeeded (by decide)

/-! ## The real single retries -/

theorem classify_failed {single : CommandResult} (h : single.status = .failed) :
    classify single ≠ .success ∧ new_task_id single = none := by
  refine ⟨?_, by simp [new_task_id, h]⟩
  rw [classify, h]
  split <;> decide

/-- A retry renews a task exactly when its outcome is a success. -/
theorem classify_single_retry (py : Interp) (w : World) (i : Nat) (call : Call) :
    classify (single_retry py w i call).1 = .success ↔ (new_task_id (single_retry py w i call).1).isSome := by
  have hfailed : ∀ r : CommandResult, r.status = .failed → (classify r = .success ↔ (new_task_id r).isSome) := by
    intro r hr
    obtain ⟨h1, h2⟩ := classify_failed hr
    simp [h1, h2]
  rw [single_retry, Retry.retry_task_action]
  split
  · exact hfailed _ rfl
  · split
    · exact iff_of_true rfl rfl
    · exact hfailed _ (Retry.retry_failure_status _)

/-- Every call of `send_task` in a bulk retry. -/
def publishes (py : Interp) (w : World) (filter : List (String × Val)) (max : Int) : List Retry.Publish :=
  ((bulk_retry py w filter max).2.mapIdx fun i call => (single_retry py w i call).2).flatten

theorem length_flatten_le {α : Type} {L : List (List α)} (h : ∀ l ∈ L, l.length ≤ 1) : L.flatten.length ≤ L.length := by
  induction L with
  | nil => rfl
  | cons l L ih =>
    have hl := h l (by simp)
    have hL := ih fun l' hl' => h l' (List.mem_cons_of_mem _ hl')
    rw [List.flatten_cons, List.length_append, List.length_cons]
    omega

/-- A bulk retry with a cap that is not negative sends at most that many tasks. -/
theorem publishes_le (py : Interp) (w : World) (filter : List (String × Val)) (max : Nat) :
    (publishes py w filter max).length ≤ min max 10000 := by
  have hcalls : ((bulk_retry py w filter max).2.length : Int) ≤ bound (bulk_request py filter max) :=
    (@capHolds_of_nonneg _ (bulk_request py filter max) (Int.natCast_nonneg max)).1
  have hflat : (publishes py w filter max).length ≤ (bulk_retry py w filter max).2.length := by
    refine (length_flatten_le fun l hl => ?_).trans (Nat.le_of_eq List.length_mapIdx)
    obtain ⟨i, hi, rfl⟩ := List.mem_mapIdx.1 hl
    exact Retry.publishes_le_one _ _ _ _ _
  simp only [bound, BULK_RETRY_HARD_CAP, bulk_request] at hcalls
  omega

end Z4jCelery.Actions.BulkRetry
