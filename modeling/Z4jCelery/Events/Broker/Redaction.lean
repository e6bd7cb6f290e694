import Z4jCelery.Events.Broker.TwoRuns
/-!
# Redacted results on the broker path

The monitor has the name of a task and never its metadata, so nothing it sinks
depends on `redact_result`. A success carries a redacted result exactly when
the engine itself redacts it (`deliverAll_redacted`), and runs that differ only
in results the engine makes one sink the same events.
-/

namespace Z4jCelery.Events.Broker

open Py Z4jCelery.Core Events Mapper Lib

variable {env : Env}

/-! ## What a handler sinks -/

/-- Nothing is sunk. -/
def silent : Frame Monitor where
  rel s s' := s'.sunk = s.sunk
  refl _ := rfl
  trans h h' := h'.trans h

theorem cached_name_silent (k : Val) : Keeps silent (cached_name k) := by
  intro s
  rw [cached_name_apply, final_ok]
  split <;> rfl

theorem resolve_name_silent (event : Body) : Keeps silent (resolve_name event) := by
  unfold resolve_name
  simp only
  split
  · exact keeps_pure _
  · exact keeps_bind (keeps_ofOutcome _) cached_name_silent

theorem cache_name_silent (event : Body) : Keeps silent (cache_name env event) := by
  unfold cache_name
  simp only
  split
  · exact keeps_bind (keeps_ofOutcome _) fun _ => keeps_modify fun _ => rfl
  · exact keeps_pure _

theorem pop_name_silent (event : Body) : Keeps silent (pop_name event) :=
  keeps_bind (keeps_ofOutcome _) fun _ => keeps_modify fun _ => rfl

/-- What comes after a statement, and sinks nothing, does not change what it
sank. -/
theorem silent_after {α : Type} {m : MonitorM α} {k : MonitorM Unit} (hk : Keeps silent k) (s : Monitor) :
    (final ((m >>= fun _ => k) s)).sunk = (final (m s)).sunk := by
  cases hm : m s with
  | error e s' => rw [bind_error hm, final_error, final_error]
  | ok a s' =>
    rw [bind_ok hm, final_ok]
    exact hk s'

theorem sink_sunk (ev : Event) (s : Monitor) : (final (sink env ev s)).sunk = s.sunk ++ [ev] := by
  rw [sink, bind_ok (get_apply s), bind_ok (modify_apply _ s), ofOutcome_apply]
  cases env.sink s.sunk.length <;> rfl

/-- An event is sunk as `Event(...)` makes it. -/
theorem emit_sunk (event : Body) (build : Val → Except Exn Event) (s : Monitor) :
    (final (emit env event build s)).sunk = s.sunk ∨
      ∃ name s' ev made, resolve_name event s = .ok name s' ∧ build name = .ok ev ∧ env.event.make ev = .ok made ∧
        (final (emit env event build s)).sunk = s.sunk ++ [made] := by
  have hres : (final (resolve_name event s)).sunk = s.sunk := resolve_name_silent event s
  cases hr : resolve_name event s with
  | error e s' =>
    rw [hr] at hres
    rw [emit, bind_error hr]
    exact .inl hres
  | ok name s' =>
    rw [hr, final_ok] at hres
    rw [emit, bind_ok hr]
    cases hb : build name >>= env.event.make with
    | error e => exact .inl hres
    | ok made =>
      obtain ⟨ev, hev, hmade⟩ := except_bind_eq_ok.1 hb
      rw [ofOutcome_ok, bind_ok (pure_apply made s')]
      exact .inr ⟨name, s', ev, made, rfl, hev, hmade, by rw [sink_sunk, hres]⟩

/-- An event that reports `N` as succeeded has its result redacted. -/
def RedactedFor (N : String) (ev : Event) : Prop :=
  ev.kind = .task_succeeded → lookup "task_name" ev.data = some (.str N) → lookup "result" ev.data = some REDACTED

theorem redactedFor_make {N : String} {ev made : Event} (h : env.event.make ev = .ok made) :
    RedactedFor N made ↔ RedactedFor N ev := by
  obtain ⟨hkind, hdata, -⟩ := EventModel.make_ok h
  rw [RedactedFor, RedactedFor, hkind, hdata]

def AllRedacted (N : String) (s : Monitor) : Prop := ∀ ev ∈ s.sunk, RedactedFor N ev

/-- Nothing that matters for `AllRedacted` is sunk. -/
def neutral (N : String) : Frame Monitor where
  rel s s' := AllRedacted N s ↔ AllRedacted N s'
  refl _ := Iff.rfl
  trans h h' := h.trans h'

variable {N : String}

theorem allRedacted_congr {s s' : Monitor} (h : s'.sunk = s.sunk) : AllRedacted N s' ↔ AllRedacted N s := by
  rw [AllRedacted, AllRedacted, h]

theorem allRedacted_snoc {s s' : Monitor} {ev : Event} (h : s'.sunk = s.sunk ++ [ev]) :
    AllRedacted N s' ↔ AllRedacted N s ∧ RedactedFor N ev := by
  rw [AllRedacted, h, List.forall_mem_append, List.forall_mem_singleton]
  rfl

theorem neutral_of_silent {α : Type} {m : MonitorM α} (h : Keeps silent m) : Keeps (neutral N) m := by
  intro s
  exact (allRedacted_congr (h s)).symm

theorem neutral_emit {event : Body} {build : Val → Except Exn Event}
    (h : ∀ name ev, build name = .ok ev → RedactedFor N ev) : Keeps (neutral N) (emit env event build) := by
  intro s
  rcases @emit_sunk env event build s with he | ⟨name, s', ev, made, -, hb, hmade, he⟩
  · exact (allRedacted_congr he).symm
  · exact ((allRedacted_snoc he).trans (and_iff_left ((redactedFor_make hmade).2 (h name ev hb)))).symm

/-! ## The success handler -/

/-- The result that a success event carries: the monitor has no metadata, so
only the engine can redact it. -/
def reported_result (env : Env) (event : Body) : Val :=
  if get event "result" .none = .none then .none else env.redaction.scrub (get event "result" .none)

/-- What `Event` is called with for a success of the task `N`. -/
def success_event (env : Env) (N : String) (ms : Val) (event : Body) : Event :=
  Mapper.event .task_succeeded (get event "uuid" (.str "")) (.val .none) N .none (get event "hostname" .none)
    [("result", reported_result env event), ("runtime_ms", ms)]

/-- In state `s` a success is sunk under the name `N`: its runtime converts, `N`
is what the task is called, and `Event` takes it. -/
def ReportedAs (env : Env) (N : String) (s : Monitor) (event : Body) : Prop :=
  ∃ ms, runtime_ms env.py (get event "runtime" .none) = .ok ms ∧
    (∃ name s', resolve_name event s = .ok name s' ∧
      Mapper.resolve_task_name env.py (.val name) none (get event "uuid" (.str "")) .none = .ok N) ∧
    env.event.check (success_event env N ms event) = .ok ()

/-- The engine itself redacts the result of the event. -/
def Redacts (env : Env) (event : Body) : Prop :=
  get event "result" .none ≠ .none ∧ env.redaction.scrub (get event "result" .none) = REDACTED

/-- If the event is reported as `N`, the engine itself redacts its result. -/
def Covered (env : Env) (N : String) (s : Monitor) (event : Body) : Prop :=
  ReportedAs env N s event → Redacts env event

theorem scrub_result_eq (event : Body) (name : Val) :
    scrub_result env.redaction (.val name) (get event "result" .none) = reported_result env event := by
  rw [scrub_result, if_neg (by simp [get_meta]), reported_result]

theorem redacts_iff (event : Body) : reported_result env event = REDACTED ↔ Redacts env event := by
  rw [reported_result, Redacts]
  split
  · rename_i h
    exact iff_of_false (by simp [REDACTED]) fun hr => hr.1 h
  · rename_i h
    exact (and_iff_right h).symm

theorem build_success (ms name : Val) (event : Body) :
    build_task_succeeded_event env.py env.redaction (get event "uuid" (.str "")) (.val name) (get event "result" .none) ms
        (get event "hostname" .none) .none = (do
      let N ← Mapper.resolve_task_name env.py (.val name) none (get event "uuid" (.str "")) .none
      return success_event env N ms event) := by
  rw [build_task_succeeded_event]
  simp only [scrub_result_eq]
  rfl

theorem success_event_data (N : String) (ms : Val) (event : Body) :
    lookup "task_name" (success_event env N ms event).data = some (.str N) ∧
      lookup "result" (success_event env N ms event).data = some (reported_result env event) := by
  simp only [success_event, Mapper.event]
  refine ⟨lookup_task_name _ _ _ _ (by simp), ?_⟩
  simp [base_data, get_meta, lookup_upsertItems]

/-- A success event is sunk under the one name it is reported as, or not at
all. -/
theorem on_succeeded_sunk (event : Body) (s : Monitor) :
    ((final (on_succeeded env event s)).sunk = s.sunk ∧ ∀ N, ¬ ReportedAs env N s event) ∨
      ∃ task_name ev, (final (on_succeeded env event s)).sunk = s.sunk ++ [ev] ∧
        (∀ N, ReportedAs env N s event ↔ task_name = N) ∧ ev.kind = .task_succeeded ∧
        lookup "task_name" ev.data = some (.str task_name) ∧
        lookup "result" ev.data = some (reported_result env event) := by
  rw [on_succeeded]
  cases hms : runtime_ms env.py (get event "runtime" .none) with
  | error e =>
    refine .inl ⟨rfl, ?_⟩
    rintro N ⟨ms, h, -⟩
    rw [hms] at h
    cases h
  | ok ms =>
    rw [ofOutcome_ok, bind_ok (pure_apply ms s)]
    -- the event is sunk or not before its name is popped
    rw [silent_after (pop_name_silent event)]
    have hresolved := resolve_name_silent event s
    cases hn : resolve_name event s with
    | error e s' =>
      rw [hn] at hresolved
      rw [emit, bind_error hn]
      refine .inl ⟨hresolved, ?_⟩
      rintro N ⟨-, -, ⟨name, s'', h, -⟩, -⟩
      rw [hn] at h
      cases h
    | ok name s' =>
      rw [hn, final_ok] at hresolved
      have hname : ∀ N, ReportedAs env N s event ↔
          Mapper.resolve_task_name env.py (.val name) none (get event "uuid" (.str "")) .none = .ok N ∧
            env.event.check (success_event env N ms event) = .ok () := by
        intro N
        constructor
        · rintro ⟨ms', hms', ⟨name', s'', h, ht⟩, hcheck⟩
          rw [hn] at h
          rw [hms] at hms'
          cases h
          cases hms'
          exact ⟨ht, hcheck⟩
        · exact fun ⟨ht, hcheck⟩ => ⟨ms, hms, ⟨name, s', hn, ht⟩, hcheck⟩
      rw [emit, bind_ok hn, build_success]
      cases ht : Mapper.resolve_task_name env.py (.val name) none (get event "uuid" (.str "")) .none with
      | error e =>
        refine .inl ⟨hresolved, fun N hr => ?_⟩
        rw [(hname N).1 hr |>.1] at ht
        cases ht
      | ok task_name =>
        have hbuilt : ((.ok task_name : Except Exn String) >>= fun N => pure (success_event env N ms event)) >>=
            env.event.make = env.event.make (success_event env task_name ms event) := rfl
        rw [hbuilt]
        cases hmade : env.event.make (success_event env task_name ms event) with
        | error e =>
          refine .inl ⟨hresolved, fun N hr => ?_⟩
          obtain ⟨htask, hcheck⟩ := (hname N).1 hr
          obtain rfl := Except.ok.inj (ht.symm.trans htask)
          rw [EventModel.make, hcheck] at hmade
          cases hmade
        | ok made =>
          obtain ⟨hkind, hdata, -⟩ := EventModel.make_ok hmade
          obtain ⟨_, hcheck, -⟩ := except_bind_eq_ok.1 hmade
          obtain ⟨htask, hresult⟩ := success_event_data task_name ms event
          rw [ofOutcome_ok, bind_ok (pure_apply made s')]
          refine .inr ⟨task_name, made, ?_, fun N => ?_, hkind, ?_, ?_⟩
          · rw [sink_sunk]
            exact congrArg (· ++ [made]) hresolved
          · rw [hname N, ht, Except.ok.injEq]
            exact ⟨fun h => h.1, fun h => ⟨h, h ▸ hcheck⟩⟩
          · rw [hdata, htask]
          · rw [hdata, hresult]

theorem on_succeeded_redacted (event : Body) (s : Monitor) :
    AllRedacted N (final (on_succeeded env event s)) ↔ AllRedacted N s ∧ Covered env N s event := by
  rcases @on_succeeded_sunk env event s with ⟨hsame, hnot⟩ | ⟨task_name, ev, hsunk, hname, hkind, htask, hresult⟩
  · rw [allRedacted_congr hsame]
    exact (and_iff_left fun h => absurd h (hnot N)).symm
  · rw [allRedacted_snoc hsunk]
    refine and_congr_right fun _ => ?_
    rw [RedactedFor, Covered, hname N, htask, hresult, ← redacts_iff]
    simp [hkind]

/-- The other handlers sink events of other kinds. -/
theorem body_redacted (h : Handler) (event : Body) (s : Monitor) :
    AllRedacted N (final (body env h event s)) ↔ AllRedacted N s ∧ (h = .succeeded → Covered env N s event) := by
  have other : ∀ {ev : Event} {k : EventKind}, ev.kind = k → k ≠ .task_succeeded → RedactedFor N ev :=
    fun hk hne hs => absurd (hk.symm.trans hs) hne
  have kept : Keeps (neutral N) (body env h event) → h ≠ .succeeded →
      (AllRedacted N (final (body env h event s)) ↔ AllRedacted N s ∧ (h = .succeeded → Covered env N s event)) :=
    fun hk hne => (hk s).symm.trans (and_iff_left fun hs => absurd hs hne).symm
  cases h with
  | succeeded =>
    exact (on_succeeded_redacted event s).trans (and_congr_right fun _ => ⟨fun hc _ => hc, fun hc => hc rfl⟩)
  | received =>
    exact kept (keeps_bind (neutral_of_silent (cache_name_silent event)) fun _ =>
      neutral_emit fun _ _ hb => other (build_task_received_event_kind hb) (by decide)) (by decide)
  | started =>
    exact kept (keeps_bind (neutral_of_silent (cache_name_silent event)) fun _ =>
      neutral_emit fun _ _ hb => other (build_task_started_event_kind hb) (by decide)) (by decide)
  | failed =>
    exact kept (keeps_bind (neutral_emit fun _ _ hb => other (build_task_failed_event_kind hb) (by decide))
      fun _ => neutral_of_silent (pop_name_silent event)) (by decide)
  | retried =>
    exact kept (neutral_emit fun _ _ hb => other (build_task_retried_event_kind hb) (by decide)) (by decide)
  | revoked =>
    exact kept (keeps_bind (neutral_emit fun _ _ hb => other (build_task_revoked_event_kind hb) (by decide))
      fun _ => neutral_of_silent (pop_name_silent event)) (by decide)

theorem handle_redacted (h : Handler) (event : Body) (s : Monitor) :
    AllRedacted N (final (handle env h event s)) ↔ AllRedacted N s ∧ (h = .succeeded → Covered env N s event) := by
  rw [handle_apply, final_ok]
  exact body_redacted h event s

/-! ## Runs of the callback -/

/-- `P` holds of every element of a message, in the state it meets. -/
def EachElement (env : Env) (P : Monitor → Val → Prop) : List Val → Monitor → Prop
  | [], _ => True
  | ev :: evs, s => P s ev ∧ ∀ s', dispatch_event env ev s = .ok () s' → EachElement env P evs s'

/-- `P` holds of every element of every message, in the state it meets. -/
def EachDelivery (env : Env) (P : Monitor → Val → Prop) : List Delivery → Monitor → Prop
  | [], _ => True
  | d :: ds, s => EachElement env P d.events s ∧ EachDelivery env P ds (final (dispatch env d s))

/-- The condition on an element: a success reported as `N` is covered. -/
def CoveredElement (env : Env) (N : String) (s : Monitor) (ev : Val) : Prop :=
  ∀ event, Reaches env ev .succeeded event → Covered env N s event

theorem dispatch_event_redacted (ev : Val) (s : Monitor) :
    AllRedacted N (final (dispatch_event env ev s)) ↔ AllRedacted N s ∧ CoveredElement env N s ev := by
  by_cases hsucc : ∃ event, Reaches env ev .succeeded event
  · obtain ⟨event, hr⟩ := hsucc
    have hcov : CoveredElement env N s ev ↔ Covered env N s event := by
      refine ⟨fun h => h event hr, fun h event' hr' => ?_⟩
      obtain rfl := Val.dict.inj (hr.1.symm.trans hr'.1)
      exact h
    rw [dispatch_event_reaches hr, handle_redacted, hcov]
    exact and_congr_right fun _ => ⟨fun hc => hc rfl, fun hc _ => hc⟩
  · have hcov : CoveredElement env N s ev := fun event hr => absurd ⟨event, hr⟩ hsucc
    rw [and_iff_left hcov]
    rcases @dispatch_event_cases env ev s with h | ⟨h, event, hr, he⟩
    · rw [h]
    · rw [he, handle_redacted]
      exact and_iff_left fun hs => absurd ⟨event, hs ▸ hr⟩ hsucc

theorem dispatch_events_redacted (evs : List Val) (s : Monitor) :
    AllRedacted N (final (dispatch_events env evs s)) ↔
      AllRedacted N s ∧ EachElement env (CoveredElement env N) evs s := by
  induction evs generalizing s with
  | nil => exact (and_iff_left trivial).symm
  | cons ev evs ih =>
    have hev := @dispatch_event_redacted env N ev s
    rw [EachElement, ← and_assoc, ← hev]
    cases hd : dispatch_event env ev s with
    | error e s' =>
      rw [dispatch_events, bind_error hd]
      exact (and_iff_left fun _ h => by cases h).symm
    | ok a s' =>
      rw [dispatch_events, bind_ok hd, ih s', final_ok]
      refine and_congr_right fun _ => ⟨fun h t ht => ?_, fun h => h s' rfl⟩
      cases ht
      exact h

theorem ack_silent (d : Delivery) : Keeps silent (ack d) :=
  keeps_bind (keeps_modify fun _ => rfl) fun _ => keeps_tryExcept (keeps_ofOutcome _) fun _ => keeps_pure _

theorem dispatch_redacted (d : Delivery) (s : Monitor) :
    AllRedacted N (final (dispatch env d s)) ↔
      AllRedacted N s ∧ EachElement env (CoveredElement env N) d.events s := by
  rw [← dispatch_events_redacted, dispatch]
  cases hd : dispatch_events env d.events s with
  | error e s' =>
    rw [bind_ok ((tryExcept_error hd _).trans (modify_apply _ s'))]
    exact allRedacted_congr (ack_silent d s'.poison)
  | ok a s' =>
    rw [bind_ok (tryExcept_ok hd _)]
    exact allRedacted_congr (ack_silent d s')

theorem deliverAll_redacted (ds : List Delivery) (s : Monitor) :
    AllRedacted N (deliverAll env ds s) ↔ AllRedacted N s ∧ EachDelivery env (CoveredElement env N) ds s := by
  induction ds generalizing s with
  | nil => exact (and_iff_left trivial).symm
  | cons d ds ih => rw [deliverAll, ih, dispatch_redacted, EachDelivery, and_assoc]

/-! ## Events that differ in their result -/

/-- Two successes whose results the engine makes one. -/
def AlikeResults (env : Env) (h : Handler) (event event' : Body) : Prop :=
  h = .succeeded ∧ SameBut "result" event event' ∧ reported_result env event = reported_result env event'

theorem on_succeeded_congr {event event' : Body} (he : SameBut "result" event event')
    (hr : reported_result env event = reported_result env event') : on_succeeded env event = on_succeeded env event' := by
  have hbuild : ∀ ms name,
      build_task_succeeded_event env.py env.redaction (get event "uuid" (.str "")) (.val name)
        (get event "result" .none) ms (get event "hostname" .none) .none =
      build_task_succeeded_event env.py env.redaction (get event' "uuid" (.str "")) (.val name)
        (get event' "result" .none) ms (get event' "hostname" .none) .none := by
    intro ms name
    simp only [build_task_succeeded_event, he.get_eq (l := "uuid") (by decide),
      he.get_eq (l := "hostname") (by decide), scrub_result_eq, hr]
  simp only [on_succeeded, emit, hbuild, he.get_eq (l := "runtime") (by decide),
    he.resolve_name_eq (by decide) (by decide), he.pop_name_eq (by decide)]

theorem alikeResults_interchangeable (h : Handler) (event event' : Body) (hq : AlikeResults env h event event') :
    Interchangeable env h event event' := by
  obtain ⟨rfl, he, hr⟩ := hq
  exact ⟨he.get_eq (by decide) _, he.get_eq (by decide) _, on_succeeded_congr he hr⟩

/-! ## The result of a redacted task -/

/-- In a run every success sunk as `N` has a redacted result exactly when the
engine itself redacts every result reported as `N`; runs that differ only in
results that the engine makes one sink the same events. -/
theorem broker_path_redacts_iff (env : Env) (N : String) :
    (∀ ds, (∀ ev ∈ (deliverAll env ds Monitor.init).sunk, RedactedFor N ev) ↔
      EachDelivery env (CoveredElement env N) ds Monitor.init) ∧
    (∀ ds ds', PairedDeliveries env (AlikeResults env) ds ds' →
      (deliverAll env ds Monitor.init).sunk = (deliverAll env ds' Monitor.init).sunk) := by
  have hinit : AllRedacted N Monitor.init := by simp [AllRedacted, Monitor.init]
  refine ⟨fun ds => (deliverAll_redacted ds Monitor.init).trans (and_iff_right hinit), fun _ _ hp => ?_⟩
  exact (deliverAll_alike alikeResults_interchangeable hp ⟨rfl, rfl, rfl⟩).sunk

/-- A task whose metadata redacts its result: a signal with the task object
reports `[REDACTED]`, and the broker's messages report the result. -/
theorem broker_path_ignores_redact_result :
    let py : Interp := .plain
    let env : Env := ⟨py, ⟨id⟩, .lenient, none, 50000, fun _ => .ok ()⟩
    let task : TaskObj := ⟨.str "app.charge", .none, true, some ⟨[], none, true, [], none, none, none, false, 1⟩⟩
    let started : Val := .dict [("type", .str "task-started"), ("uuid", .str "u1"), ("name", .str "app.charge")]
    let succeeded : Val := .dict [("type", .str "task-succeeded"), ("uuid", .str "u1"), ("result", .str "s3cret")]
    (build_task_succeeded_event py env.redaction (.str "u1") (.obj task) (.str "s3cret") .none .none .none).toOption.map
        (fun ev => (lookup "task_name" ev.data, lookup "result" ev.data)) =
      some (some (.str "app.charge"), some REDACTED) ∧
    ((deliverAll env [⟨started, .ok ()⟩, ⟨succeeded, .ok ()⟩] Monitor.init).sunk.map fun ev =>
        (ev.kind, lookup "task_name" ev.data, lookup "result" ev.data)) =
      [(.task_started, some (.str "app.charge"), none),
        (.task_succeeded, some (.str "app.charge"), some (.str "s3cret"))] := by
  decide +kernel

end Z4jCelery.Events.Broker
