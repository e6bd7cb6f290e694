import Z4jCelery.Actions.Retry.Theorems
/-!
# Who names the retried task

Celery's `AsyncResult.info` is the return value of the task. A retry that finds
no stored name takes one from there: `named_by_return_value` lets a task choose
the task that runs instead of it, and `publish_independent_iff` says exactly
when the return value has no say.
-/

namespace Z4jCelery.Actions.Retry

open Py Z4jCelery.Core Offload

variable {py : Interp} {app : App} {timing : Timing} {now : Int} {req : Request}

/-! ## What is sent -/

/-- The thread that sends the call runs. -/
def Runs (timing : Timing) : Prop := timing ≠ .outlives false

theorem publishes_refused {e : Exn} (h : eta_from_timestamp py now req.eta = .error e) :
    (retry_task_action py app timing now req).2 = [] := by
  rw [retry_task_action, h]

theorem publishes_not_run (h : ¬ Runs timing) : (retry_task_action py app timing now req).2 = [] := by
  obtain rfl := not_not.1 h
  rw [retry_task_action]
  split
  · rfl
  · rw [offload_outlives]
    rfl

theorem publishes_run {eta_dt : Option Int} (heta : eta_from_timestamp py now req.eta = .ok eta_dt)
    (hrun : Runs timing) :
    (retry_task_action py app timing now req).2 = (signature py app req eta_dt).toOption.toList := by
  rw [retry_task_action, heta]
  simp only
  cases hsig : signature py app req eta_dt with
  | error e =>
    have hio := do_retry_io_error hsig []
    cases timing with
    | inTime => rw [offload_error hio]; rfl
    | outlives runs => rw [offload_outlives, hio]; cases runs <;> rfl
  | ok call =>
    have hio := do_retry_io_ok hsig []
    have hfinal : final (do_retry_io py app req eta_dt []) = [call] := by
      rw [hio]
      cases submit app call <;> rfl
    cases timing with
    | outlives runs =>
      cases runs with
      | false => exact absurd rfl hrun
      | true => rw [offload_outlives, if_pos rfl, hfinal]; rfl
    | inTime =>
      cases hsub : submit app call with
      | ok id => rw [hsub] at hio; rw [offload_ok hio]; rfl
      | error e => rw [hsub] at hio; rw [offload_error hio]; rfl

/-! ## Other return values -/

/-- The same result with another return value. -/
def AsyncResult.returning (r : AsyncResult) (value : Val) : AsyncResult := { r with info := .ok value }

/-- The same app, with a backend whose tasks returned other values. -/
def App.returning (app : App) (value : String → Val) : App :=
  { app with AsyncResult := fun task_id => (app.AsyncResult task_id).map fun r => r.returning (value task_id) }

theorem returning_ok {r : AsyncResult} (h : app.AsyncResult req.task_id = .ok r) (value : String → Val) :
    (app.returning value).AsyncResult req.task_id = .ok (r.returning (value req.task_id)) := by
  show (app.AsyncResult req.task_id).map _ = _
  rw [h]
  rfl

theorem signature_returning {r : AsyncResult} (h : app.AsyncResult req.task_id = .ok r) {value value' : String → Val}
    (hsource : name_source req (r.returning (value req.task_id)) =
      name_source req (r.returning (value' req.task_id))) (eta_dt : Option Int) :
    signature py (app.returning value) req eta_dt = signature py (app.returning value') req eta_dt := by
  have hname : retry_name py req (r.returning (value req.task_id)) =
      retry_name py req (r.returning (value' req.task_id)) := by
    rw [retry_name, retry_name, hsource]
  rw [signature, signature, returning_ok h, returning_ok h]
  simp only [bind, Except.bind, hname]
  rfl

theorem signature_unnamed {r : AsyncResult} (h : app.AsyncResult req.task_id = .ok r) {value : String → Val} {e : Exn}
    (hname : retry_name py req (r.returning (value req.task_id)) = .error e) (eta_dt : Option Int) :
    signature py (app.returning value) req eta_dt = .error e := by
  rw [signature, returning_ok h]
  simp only [bind, Except.bind, hname]

theorem signature_named {r : AsyncResult} (h : app.AsyncResult req.task_id = .ok r) {value : String → Val}
    {name : String} {args : List Val} {kwargs : List (String × Val)}
    (hname : retry_name py req (r.returning (value req.task_id)) = .ok name)
    (hargs : resolve_args r req.override_args req.override_kwargs = .ok (some (args, kwargs))) (eta_dt : Option Int) :
    signature py (app.returning value) req eta_dt =
      .ok ⟨name, args, kwargs, eta_dt, resolve_priority py app req.priority⟩ := by
  have hargs' : resolve_args (r.returning (value req.task_id)) req.override_args req.override_kwargs =
      .ok (some (args, kwargs)) := hargs
  rw [signature, returning_ok h]
  simp only [bind, Except.bind, hname, hargs']
  rfl

/-! ## When the return value has no say -/

/-- The backend stored a name, or reading it raises. -/
def NameStored (r : AsyncResult) : Prop :=
  (∃ name, name ≠ "" ∧ r.name = .ok (.str name)) ∨ ∃ e, r.name = .error e ∧ e.isa .AttributeError = false

/-- Each half of the call has a source, and reading the stored halves does not
raise. -/
def Rebuildable (req : Request) (r : AsyncResult) : Prop :=
  (∃ stored, getattr r.args = .ok stored ∧ (req.override_args.isSome ∨ stored.seq?.isSome)) ∧
    ∃ stored, getattr r.kwargs = .ok stored ∧ (req.override_kwargs.isSome ∨ stored.dict?.isSome)

theorem resolve_task_name_stored {r : AsyncResult} (h : NameStored r) (value value' : Val) :
    resolve_task_name (r.returning value) = resolve_task_name (r.returning value') := by
  rcases h with ⟨name, hne, hname⟩ | ⟨e, he, hattr⟩
  · have hread : ∀ value, resolve_task_name (r.returning value) = .ok (some name) := fun value => by
      rw [resolve_task_name, show (r.returning value).name = .ok (.str name) from hname]
      simp [getattr, getattr_or, bind, Except.bind, Val.str?, hne, pure, Except.pure]
    rw [hread, hread]
  · have hread : ∀ value, resolve_task_name (r.returning value) = .error e := fun value => by
      rw [resolve_task_name, show (r.returning value).name = .error e from he]
      simp [getattr, getattr_or, hattr, bind, Except.bind]
    rw [hread, hread]

/-- With no stored name the return value names the task. -/
theorem resolve_task_name_returned {r : AsyncResult} (h : ¬ NameStored r) (value : Val) :
    resolve_task_name (r.returning value) = match value with
      | .dict kvs => .ok ((get kvs "name" .none).orElse (get kvs "task" .none)).str?
      | _ => .ok none := by
  have hname : ∃ v, getattr r.name = .ok v ∧ v.str?.any (· ≠ "") = false := by
    cases hr : r.name with
    | error e =>
      cases hattr : e.isa .AttributeError with
      | false => exact absurd (.inr ⟨e, hr, hattr⟩) h
      | true => exact ⟨.none, by simp [getattr, getattr_or, hattr], rfl⟩
    | ok v =>
      refine ⟨v, rfl, ?_⟩
      cases v with
      | str s =>
        by_cases hs : s = ""
        · simp [Val.str?, hs]
        · exact absurd (.inl ⟨s, hs, hr⟩) h
      | _ => rfl
  obtain ⟨v, hv, hnot⟩ := hname
  rw [resolve_task_name, show (r.returning value).name = r.name from rfl, hv,
    show (r.returning value).info = .ok value from rfl]
  simp only [bind, Except.bind, hnot, getattr, getattr_or]
  cases value <;> rfl

theorem rebuildable_iff {r : AsyncResult} :
    Rebuildable req r ↔ ∃ call, resolve_args r req.override_args req.override_kwargs = .ok (some call) := by
  rw [Rebuildable, resolve_args]
  cases ha : getattr r.args with
  | error e => simp [bind, Except.bind]
  | ok stored =>
    cases hk : getattr r.kwargs with
    | error e => simp [bind, Except.bind]
    | ok stored_kwargs =>
      simp only [bind, Except.bind, Except.ok.injEq, exists_eq_left']
      cases req.override_args <;> cases req.override_kwargs <;> cases stored.seq? <;> cases stored_kwargs.dict? <;>
        simp [pure, Except.pure]

theorem signature_unbuildable {r : AsyncResult} (h : app.AsyncResult req.task_id = .ok r)
    (hnot : ¬ Rebuildable req r) (value : String → Val) (eta_dt : Option Int) :
    (signature py (app.returning value) req eta_dt).toOption = none := by
  rw [rebuildable_iff] at hnot
  rw [signature, returning_ok h]
  simp only [bind, Except.bind]
  cases retry_name py req (r.returning (value req.task_id)) with
  | error e => rfl
  | ok name =>
    simp only
    cases hr : resolve_args (r.returning (value req.task_id)) req.override_args req.override_kwargs with
    | error e => rfl
    | ok found =>
      cases found with
      | none => rfl
      | some call => exact absurd ⟨call, hr⟩ hnot

/-- What decides the call is not the return value: the start time is refused,
the thread never runs, the backend fails, the operator supplied an admissible
name, the backend stored one, or the call cannot be rebuilt. -/
def Independent (py : Interp) (app : App) (timing : Timing) (now : Int) (req : Request) : Prop :=
  (∃ e, eta_from_timestamp py now req.eta = .error e) ∨ ¬ Runs timing ∨
  (∃ e, app.AsyncResult req.task_id = .error e) ∨ (∃ name, req.task_name = some name ∧ Admissible name) ∨
  ∃ r, app.AsyncResult req.task_id = .ok r ∧ (NameStored r ∨ ¬ Rebuildable req r)

theorem independent_signature
    (h : (∃ e, app.AsyncResult req.task_id = .error e) ∨ (∃ name, req.task_name = some name ∧ Admissible name) ∨
      ∃ r, app.AsyncResult req.task_id = .ok r ∧ (NameStored r ∨ ¬ Rebuildable req r))
    (value value' : String → Val) (eta_dt : Option Int) :
    (signature py (app.returning value) req eta_dt).toOption =
      (signature py (app.returning value') req eta_dt).toOption := by
  cases hr : app.AsyncResult req.task_id with
  | error e =>
    have hraises : ∀ value, (app.returning value).AsyncResult req.task_id = .error e := fun value => by
      show (app.AsyncResult req.task_id).map _ = _
      rw [hr]
      rfl
    rw [signature, signature, hraises, hraises]
    rfl
  | ok r =>
    rcases h with ⟨e, he⟩ | ⟨name, hname, ha⟩ | ⟨r', hr', hstored | hnot⟩
    · rw [hr] at he
      cases he
    · have hsource : ∀ r, name_source req r = .ok (some name) := fun r => by
        rw [name_source, supplied_name_eq_some.2 ⟨hname, ha⟩]
      rw [signature_returning hr ((hsource _).trans (hsource _).symm)]
    · obtain rfl := Except.ok.inj (hr.symm.trans hr')
      have hsource : name_source req (r.returning (value req.task_id)) =
          name_source req (r.returning (value' req.task_id)) := by
        rw [name_source, name_source, resolve_task_name_stored hstored]
      rw [signature_returning hr hsource]
    · obtain rfl := Except.ok.inj (hr.symm.trans hr')
      rw [signature_unbuildable hr hnot, signature_unbuildable hr hnot]

theorem independent_publishes (h : Independent py app timing now req) (value value' : String → Val) :
    (retry_task_action py (app.returning value) timing now req).2 =
      (retry_task_action py (app.returning value') timing now req).2 := by
  rcases h with ⟨e, he⟩ | hrun | h
  · rw [publishes_refused he, publishes_refused he]
  · rw [publishes_not_run hrun, publishes_not_run hrun]
  · by_cases hrun : Runs timing
    · cases heta : eta_from_timestamp py now req.eta with
      | error e => rw [publishes_refused heta, publishes_refused heta]
      | ok eta_dt => rw [publishes_run heta hrun, publishes_run heta hrun, independent_signature h value value']
    · rw [publishes_not_run hrun, publishes_not_run hrun]

/-! ## When it has -/

/-- Otherwise a dictionary with a name, returned by the task, is what runs; and
with `None` for a return value nothing is sent. -/
theorem named_by_return_value (h : ¬ Independent py app timing now req) :
    (retry_task_action py (app.returning fun _ => .none) timing now req).2 = [] ∧
    ∀ name, Admissible name → ∃ call, call.name = name ∧
      (retry_task_action py (app.returning fun _ => .dict [("name", .str name)]) timing now req).2 = [call] := by
  simp only [Independent, not_or, not_exists, not_and, not_not] at h
  obtain ⟨heta, hrun, hresult, hsupplied, hr⟩ := h
  obtain ⟨eta_dt, heta⟩ : ∃ eta_dt, eta_from_timestamp py now req.eta = .ok eta_dt := by
    cases he : eta_from_timestamp py now req.eta with
    | error e => exact absurd he (heta e)
    | ok eta_dt => exact ⟨eta_dt, rfl⟩
  obtain ⟨r, hr'⟩ : ∃ r, app.AsyncResult req.task_id = .ok r := by
    cases he : app.AsyncResult req.task_id with
    | error e => exact absurd he (hresult e)
    | ok r => exact ⟨r, rfl⟩
  obtain ⟨hstored, hbuild⟩ := hr r hr'
  obtain ⟨⟨args, kwargs⟩, hargs⟩ := rebuildable_iff.1 hbuild
  have hsource : ∀ value, name_source req (r.returning value) = resolve_task_name (r.returning value) := fun value => by
    rw [name_source, supplied_name_eq_none.2 hsupplied]
  constructor
  · have hname : retry_name py req (r.returning .none) =
        .error (retryError ("could not resolve task name for " ++ py.repr (.str req.task_id))) := by
      rw [retry_name, hsource, resolve_task_name_returned hstored]
      rfl
    rw [publishes_run heta hrun, signature_unnamed hr' hname]
    rfl
  · intro name ha
    have hne : name ≠ "" := ha.1
    refine ⟨⟨name, args, kwargs, eta_dt, resolve_priority py app req.priority⟩, rfl, ?_⟩
    have hfound : ((get [("name", .str name)] "name" .none).orElse (get [("name", .str name)] "task" .none)).str? =
        some name := by
      simp [Py.get, lookup_cons, Val.orElse, hne, Val.str?]
    have hfilter : (some name).filter admissible = some name := by
      rw [Option.filter_eq_some_iff, admissible_iff]
      exact ⟨rfl, ha⟩
    have hname : retry_name py req (r.returning (.dict [("name", .str name)])) = .ok name := by
      rw [retry_name, hsource, resolve_task_name_returned hstored]
      simp only [hfound, bind, Except.bind, hfilter]
      rfl
    rw [publishes_run heta hrun, signature_named hr' hname hargs]
    rfl

/-- The calls that a retry sends are the same whatever the task returned,
exactly when something else decides them. -/
theorem publish_independent_iff (py : Interp) (app : App) (timing : Timing) (now : Int) (req : Request) :
    (∀ value value' : String → Val,
      (retry_task_action py (app.returning value) timing now req).2 =
        (retry_task_action py (app.returning value') timing now req).2) ↔
      Independent py app timing now req := by
  refine ⟨fun hsame => ?_, fun h value value' => independent_publishes h value value'⟩
  by_contra h
  obtain ⟨hnone, hnamed⟩ := named_by_return_value h
  obtain ⟨call, -, hcall⟩ := hnamed "a" (by simp [Admissible])
  have heq := hsame (fun _ => .none) fun _ => .dict [("name", .str "a")]
  rw [hnone, hcall] at heq
  cases heq

/-- A backend that stores no names, and a retry without one: what the task
returned is what runs. -/
theorem retry_runs_returned_name :
    let app : App := ⟨.ok ⟨.ok ⟨.ok (.str "redis")⟩⟩, fun _ => .ok ⟨.ok .none, .ok .none, .ok .none, .ok .none⟩,
      fun _ => .ok ⟨.ok (.str "new"), .ok .none⟩⟩
    let req : Request := ⟨"t1", none, some [], some [], none, .none⟩
    let py : Interp := .plain
    let sent := fun value : Val => (retry_task_action py (app.returning fun _ => value) .inTime 0 req).2
    sent (.dict [("name", .str "app.drop")]) = [⟨"app.drop", [], [], none, none⟩] ∧
      sent (.dict [("name", .str "app.add")]) = [⟨"app.add", [], [], none, none⟩] := by
  decide

end Z4jCelery.Actions.Retry
