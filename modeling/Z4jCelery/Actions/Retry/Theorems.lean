import Z4jCelery.Actions.Retry
import Z4jCelery.Events.Mapper
/-!
# A retry fails closed

`Met` is what a retry needs before anything is sent: a start time in the
window, an admissible name, and a source for each half of the call.
`signature_ok` reads it off a rebuilt call, and `retry_cases` says what the
action does with one.
-/

namespace Z4jCelery.Actions.Retry

open Py Z4jCelery.Core Offload

/-! ## What a retry needs -/

/-- No start time, or one that rounds to a microsecond of the window. -/
def EtaMet (now : Int) (eta : Option PyFloat) (eta_dt : Option Int) : Prop :=
  match eta with
  | none => eta_dt = none
  | some x => ∃ q, x = .finite q ∧ eta_dt = some (roundHalfEven (q * MICROS)) ∧
      now - 60 * MICROS ≤ roundHalfEven (q * MICROS) ∧ roundHalfEven (q * MICROS) ≤ now + 365 * 24 * 3600 * MICROS

def Admissible (name : String) : Prop := name ≠ "" ∧ name ≠ "unknown" ∧ ¬ "<unknown".toList <+: name.toList

/-- The supplied name when it is admissible, else the backend's. -/
def NameMet (app : App) (req : Request) (name : String) : Prop :=
  Admissible name ∧ (req.task_name = some name ∨
    ((∀ n, req.task_name = some n → ¬ Admissible n) ∧
      ∃ r, app.AsyncResult req.task_id = .ok r ∧ resolve_task_name r = .ok (some name)))

/-- The override, else the list or tuple that the backend stored. -/
def ArgsMet (app : App) (req : Request) (args : List Val) : Prop :=
  req.override_args = some args ∨ (req.override_args = none ∧
    ∃ r, app.AsyncResult req.task_id = .ok r ∧ (r.args = .ok (.list args) ∨ r.args = .ok (.tuple args)))

/-- The override, else the dictionary that the backend stored. -/
def KwargsMet (app : App) (req : Request) (kwargs : List (String × Val)) : Prop :=
  req.override_kwargs = some kwargs ∨ (req.override_kwargs = none ∧
    ∃ r, app.AsyncResult req.task_id = .ok r ∧ r.kwargs = .ok (.dict kwargs))

/-- The call is what the request and the backend determine. -/
structure Met (app : App) (now : Int) (req : Request) (call : Publish) : Prop where
  eta : EtaMet now req.eta call.eta
  name : NameMet app req call.name
  args : ArgsMet app req call.args
  kwargs : KwargsMet app req call.kwargs

/-- `send_task` returned, and its result carries a truthy id. -/
def Accepted (app : App) (call : Publish) : Prop :=
  ∃ r v, app.send_task call = .ok r ∧ sent_id r = .ok v ∧ v.truthy = true

theorem admissible_iff (name : String) : admissible name = true ↔ Admissible name := by
  simp only [admissible, Admissible, Bool.and_eq_true, decide_eq_true_eq, Bool.not_eq_true', ← startswith_iff,
    Bool.not_eq_true]
  tauto

/-! ## The rebuilt call -/

theorem getattr_eq_ok {r : Except Exn Val} {v : Val} (h : getattr r = .ok v) (hv : v ≠ .none) : r = .ok v := by
  cases r with
  | ok w => exact h
  | error e =>
    simp only [getattr, getattr_or] at h
    split at h
    · exact absurd (Except.ok.inj h).symm hv
    · cases h

theorem supplied_name_eq_some {task_name : Option String} {n : String} :
    supplied_name task_name = some n ↔ task_name = some n ∧ Admissible n := by
  rw [supplied_name, Option.filter_eq_some_iff, admissible_iff]

theorem supplied_name_eq_none {task_name : Option String} :
    supplied_name task_name = none ↔ ∀ n, task_name = some n → ¬ Admissible n := by
  simp only [supplied_name, Option.filter_eq_none_iff, ← admissible_iff]

theorem retry_name_ok {py : Interp} {app : App} {req : Request} {r : AsyncResult} {name : String}
    (hr : app.AsyncResult req.task_id = .ok r) (h : retry_name py req r = .ok name) : NameMet app req name := by
  rw [retry_name] at h
  obtain ⟨found, hfound, h⟩ := except_bind_eq_ok.1 h
  have hname : found = some name ∧ Admissible name := by
    split at h
    · rename_i n hn
      obtain rfl := Except.ok.inj h
      rw [Option.filter_eq_some_iff, admissible_iff] at hn
      exact hn
    · cases h
  obtain ⟨rfl, ha⟩ := hname
  refine ⟨ha, ?_⟩
  -- the supplied name, or the backend's when the supplied one is not admissible
  rw [name_source] at hfound
  split at hfound
  · rename_i n hn
    obtain rfl := Option.some.inj (Except.ok.inj hfound)
    exact .inl (supplied_name_eq_some.1 hn).1
  · rename_i hn
    exact .inr ⟨supplied_name_eq_none.1 hn, r, hr, hfound⟩

theorem resolve_args_ok {app : App} {req : Request} {r : AsyncResult} {args : List Val} {kwargs : List (String × Val)}
    (hr : app.AsyncResult req.task_id = .ok r)
    (h : resolve_args r req.override_args req.override_kwargs = .ok (some (args, kwargs))) :
    ArgsMet app req args ∧ KwargsMet app req kwargs := by
  rw [resolve_args] at h
  obtain ⟨stored, hs, h⟩ := except_bind_eq_ok.1 h
  obtain ⟨stored_kwargs, hk, h⟩ := except_bind_eq_ok.1 h
  have both : req.override_args.or stored.seq? = some args ∧
      req.override_kwargs.or stored_kwargs.dict? = some kwargs := by
    split at h
    · rename_i a k ha hkw
      obtain ⟨rfl, rfl⟩ := Prod.mk.inj (Option.some.inj (Except.ok.inj h))
      exact ⟨ha, hkw⟩
    · cases h
  refine ⟨?_, ?_⟩
  · cases ho : req.override_args with
    | some xs =>
      have hx := both.1
      rw [ho, Option.some_or] at hx
      exact .inl (ho.trans hx)
    | none =>
      have hx := both.1
      rw [ho, Option.none_or] at hx
      refine .inr ⟨ho, r, hr, ?_⟩
      cases stored <;> simp only [Val.seq?, Option.some.injEq, reduceCtorEq] at hx
      · subst hx; exact .inr (getattr_eq_ok hs (by simp))
      · subst hx; exact .inl (getattr_eq_ok hs (by simp))
  · cases ho : req.override_kwargs with
    | some xs =>
      have hx := both.2
      rw [ho, Option.some_or] at hx
      exact .inl (ho.trans hx)
    | none =>
      have hx := both.2
      rw [ho, Option.none_or, Val.dict?_eq_some] at hx
      subst hx
      exact .inr ⟨ho, r, hr, getattr_eq_ok hk (by simp)⟩

theorem signature_ok {py : Interp} {app : App} {req : Request} {eta_dt : Option Int} {call : Publish}
    (h : signature py app req eta_dt = .ok call) :
    call.eta = eta_dt ∧ NameMet app req call.name ∧ ArgsMet app req call.args ∧ KwargsMet app req call.kwargs := by
  rw [signature] at h
  obtain ⟨r, hr, h⟩ := except_bind_eq_ok.1 h
  obtain ⟨name, hn, h⟩ := except_bind_eq_ok.1 h
  obtain ⟨resolved, ha, h⟩ := except_bind_eq_ok.1 h
  split at h
  · obtain rfl := Except.ok.inj h
    obtain ⟨h1, h2⟩ := resolve_args_ok hr ha
    exact ⟨rfl, retry_name_ok hr hn, h1, h2⟩
  · cases h

theorem eta_from_timestamp_ok {py : Interp} {now : Int} {eta : Option PyFloat} {eta_dt : Option Int}
    (h : eta_from_timestamp py now eta = .ok eta_dt) : EtaMet now eta eta_dt := by
  cases eta with
  | none => exact (Except.ok.inj h).symm
  | some x =>
    simp only [eta_from_timestamp] at h
    split at h
    · cases h
    · rename_i target ht
      split at h
      · cases h
      · rename_i hpast
        split at h
        · cases h
        · rename_i hfuture
          obtain rfl := Except.ok.inj h
          cases x with
          | nan => simp [fromtimestamp] at ht
          | inf n => simp [fromtimestamp] at ht
          | finite q =>
            simp only [fromtimestamp] at ht
            split at ht
            · obtain rfl := Except.ok.inj ht
              refine ⟨q, rfl, rfl, ?_, ?_⟩ <;>
                simp only [ETA_MAX_PAST_SECONDS, ETA_MAX_FUTURE_SECONDS, MICROS] at * <;> omega
            · cases ht

/-! ## What the action does -/

theorem submit_ok_iff {app : App} {call : Publish} : (∃ v, submit app call = .ok v) ↔ Accepted app call := by
  constructor
  · rintro ⟨v, h⟩
    rw [submit] at h
    obtain ⟨r, hr, h⟩ := except_bind_eq_ok.1 h
    obtain ⟨w, hw, h⟩ := except_bind_eq_ok.1 h
    split at h
    · rename_i ht
      exact ⟨r, w, hr, hw, ht⟩
    · cases h
  · rintro ⟨r, v, hr, hv, ht⟩
    exact ⟨v, by rw [submit, hr]; simp [bind, Except.bind, hv, ht]; rfl⟩

theorem do_retry_io_error {py : Interp} {app : App} {req : Request} {eta_dt : Option Int} {e : Exn}
    (h : signature py app req eta_dt = .error e) (s : List Publish) :
    do_retry_io py app req eta_dt s = .error e s := by
  rw [do_retry_io, h, ofOutcome_error]
  exact bind_error (throw_apply e s)

theorem do_retry_io_ok {py : Interp} {app : App} {req : Request} {eta_dt : Option Int} {call : Publish}
    (h : signature py app req eta_dt = .ok call) (s : List Publish) :
    do_retry_io py app req eta_dt s = match submit app call with
      | .ok id => .ok (call.name, py.strOf id, call.priority) (s ++ [call])
      | .error e => .error e (s ++ [call]) := by
  rw [do_retry_io, h, ofOutcome_ok, bind_ok (pure_apply call s), bind_ok (modify_apply _ s)]
  cases submit app call with
  | ok id => rfl
  | error e => rfl

theorem retry_failure_status (exc : Exn) : (retry_failure exc).status = .failed := by
  rw [retry_failure]
  split
  · rfl
  · split <;> rfl

/-- Nothing is sent and the answer is a failure, or exactly one call is sent,
and the answer is a success when it is accepted in time; or the timeout passed
and the thread never ran. -/
inductive Outcome (app : App) (timing : Timing) (now : Int) (req : Request) : CommandResult × List Publish → Prop
  | refused (r : CommandResult) (h : r.status = .failed) : Outcome app timing now req (r, [])
  | lost (r : CommandResult) (call : Publish) (hm : Met app now req call) (h : r.status = .failed)
      (ha : ¬ (timing = .inTime ∧ Accepted app call)) : Outcome app timing now req (r, [call])
  | accepted (r : CommandResult) (call : Publish) (hm : Met app now req call) (h : r.status = .success)
      (ht : timing = .inTime) (ha : Accepted app call) : Outcome app timing now req (r, [call])

theorem retry_cases (py : Interp) (app : App) (timing : Timing) (now : Int) (req : Request) :
    Outcome app timing now req (retry_task_action py app timing now req) := by
  rw [retry_task_action]
  cases heta : eta_from_timestamp py now req.eta with
  | error exc => exact .refused _ rfl
  | ok eta_dt =>
    simp only
    cases hsig : signature py app req eta_dt with
    | error e =>
      have hio := do_retry_io_error hsig []
      cases timing with
      | inTime => rw [offload_error hio]; exact .refused _ (retry_failure_status _)
      | outlives runs =>
        rw [offload_outlives, hio]
        cases runs <;> exact .refused _ (retry_failure_status _)
    | ok call =>
      obtain ⟨he, hn, ha, hk⟩ := signature_ok hsig
      have hm : Met app now req call := ⟨he ▸ eta_from_timestamp_ok heta, hn, ha, hk⟩
      have hio := do_retry_io_ok hsig []
      cases timing with
      | outlives runs =>
        -- the answer is a failure, but the thread may still send the call
        rw [offload_outlives]
        cases runs with
        | false => exact .refused _ (retry_failure_status _)
        | true =>
          have hf : final (do_retry_io py app req eta_dt []) = [call] := by
            rw [hio]; cases submit app call <;> rfl
          rw [if_pos rfl, hf]
          exact .lost _ call hm (retry_failure_status _) (by simp)
      | inTime =>
        cases hsub : submit app call with
        | ok id =>
          rw [hsub] at hio
          rw [offload_ok hio]
          exact .accepted _ call hm rfl rfl (submit_ok_iff.1 ⟨id, hsub⟩)
        | error e =>
          rw [hsub] at hio
          rw [offload_error hio]
          refine .lost _ call hm (retry_failure_status _) ?_
          rintro ⟨-, hacc⟩
          obtain ⟨v, hv⟩ := submit_ok_iff.2 hacc
          rw [hsub] at hv
          cases hv

theorem publishes_le_one (py : Interp) (app : App) (timing : Timing) (now : Int) (req : Request) :
    (retry_task_action py app timing now req).2.length ≤ 1 := by
  have hc := retry_cases py app timing now req
  generalize retry_task_action py app timing now req = out at hc ⊢
  cases hc <;> simp

/-! ## Fail closed -/

theorem NameMet.supplied {app : App} {req : Request} {name n : String} (h : NameMet app req name)
    (hs : req.task_name = some n) (hn : Admissible n) : name = n := by
  obtain ⟨-, heq | ⟨hnone, -⟩⟩ := h
  · exact Option.some.inj (heq.symm.trans hs)
  · exact absurd hn (hnone n hs)

/-- No name that a retry sends is one the event mapper made up. -/
theorem NameMet.not_placeholder {app : App} {req : Request} {name : String} (h : NameMet app req name) (py : Interp)
    (task : Events.TaskArg) (task_id queue : Val) (hown : Events.Mapper.own_name py task = none) :
    Events.Mapper.resolve_task_name py task none task_id queue ≠ .ok name := by
  intro hr
  exact h.1.2.2 ((startswith_iff name "<unknown").1 (Events.Mapper.resolve_task_name_placeholder hown hr))

/-- At most one call is sent, only with everything it needs, and the answer is
a success exactly when that call was accepted in time. -/
theorem retry_fails_closed (py : Interp) (app : App) (timing : Timing) (now : Int) (req : Request) :
    (retry_task_action py app timing now req).2.length ≤ 1 ∧
    (∀ call ∈ (retry_task_action py app timing now req).2,
      EtaMet now req.eta call.eta ∧
      (Admissible call.name ∧ (∀ n, req.task_name = some n → Admissible n → call.name = n) ∧
        ∀ py' task task_id queue, Events.Mapper.own_name py' task = none →
          Events.Mapper.resolve_task_name py' task none task_id queue ≠ .ok call.name) ∧
      ArgsMet app req call.args ∧ KwargsMet app req call.kwargs) ∧
    ((¬ ∃ call, Met app now req call) →
      (retry_task_action py app timing now req).1.status = .failed ∧
        (retry_task_action py app timing now req).2 = []) ∧
    ((retry_task_action py app timing now req).1.status = .success ↔
      timing = .inTime ∧ ∃ call, (retry_task_action py app timing now req).2 = [call] ∧ Accepted app call) := by
  have hc := retry_cases py app timing now req
  generalize retry_task_action py app timing now req = out at hc ⊢
  have sent : ∀ call, Met app now req call → ∀ c ∈ [call], EtaMet now req.eta c.eta ∧
      (Admissible c.name ∧ (∀ n, req.task_name = some n → Admissible n → c.name = n) ∧
        ∀ py' task task_id queue, Events.Mapper.own_name py' task = none →
          Events.Mapper.resolve_task_name py' task none task_id queue ≠ .ok c.name) ∧
      ArgsMet app req c.args ∧ KwargsMet app req c.kwargs := by
    intro call hm c hmem
    rw [List.mem_singleton] at hmem
    subst hmem
    exact ⟨hm.eta, ⟨hm.name.1, fun n hs hn => hm.name.supplied hs hn, hm.name.not_placeholder⟩, hm.args, hm.kwargs⟩
  cases hc with
  | refused r h =>
    refine ⟨by simp, by simp, fun _ => ⟨h, rfl⟩, ?_⟩
    simp [h]
  | lost r call hm h ha =>
    refine ⟨by simp, sent call hm, fun hn => absurd ⟨call, hm⟩ hn, ?_⟩
    simpa [h] using ha
  | accepted r call hm h ht ha =>
    refine ⟨by simp, sent call hm, fun hn => absurd ⟨call, hm⟩ hn, ?_⟩
    simpa [h, ht] using ha

/-- The start time of a call is rounded to the microsecond before the window is
checked: this one lies before the window, and is sent. -/
theorem retry_sends_eta_before_window :
    let app : App := ⟨.ok ⟨.ok ⟨.ok (.str "redis")⟩⟩, fun _ => .ok ⟨.ok .none, .ok .none, .ok .none, .ok .none⟩,
      fun _ => .ok ⟨.ok (.str "new"), .ok .none⟩⟩
    let eta : ℚ := 1700000000 - 1 / 2 ^ 22
    let req : Request := ⟨"t1", some "app.add", some [], some [], some (.finite eta), .none⟩
    (retry_task_action .plain app .inTime (1700000060 * MICROS)
      req).2 = [⟨"app.add", [], [], some (1700000000 * MICROS), none⟩] ∧
      ¬ (((1700000060 * MICROS : Int) : ℚ) / MICROS - 60 ≤ eta) := by
  decide +kernel

end Z4jCelery.Actions.Retry
