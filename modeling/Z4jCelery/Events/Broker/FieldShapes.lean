import Z4jCelery.Events.Broker.Batch
import Z4jCelery.Events.Broker.Redaction
import Z4jCelery.Events.Signals.Sampling
import Z4jCelery.Py.Rounding
/-!
# Transitions lost to a bad optional field

A handler converts two fields before it passes the event on: the `runtime` of a
success and the `traceback` of a failure. `Readable` says which values of these
it gets through; the others hide the transition.
-/

namespace Z4jCelery.Events.Broker

open Py Z4jCelery.Core Events Mapper Lib Signals

variable {env : Env}

/-! ## The converted fields -/

/-- The `runtime` is null, or `float` reads a number of it whose thousandfold is
one too. -/
def FiniteRuntime (py : Interp) (runtime : Val) : Prop :=
  runtime = .none ∨ ∃ q, float_of py runtime = .ok (.finite q) ∧ |q * 1000| < DOUBLE_MAX_EXCLUSIVE

/-- The `traceback` is null, a string, or a short collection. -/
def MeasurableTraceback (traceback : Val) : Prop :=
  match traceback with
  | .none | .str _ => True
  | .list xs | .tuple xs => xs.length ≤ TRACEBACK_MAX_CHARS
  | .dict kvs => kvs.length ≤ TRACEBACK_MAX_CHARS
  | .bool _ | .int _ | .float _ | .obj _ _ _ => False

/-- The fields of the event that the handler converts. -/
def ReadableFields (py : Interp) (h : Handler) (event : Body) : Prop :=
  match h with
  | .succeeded => FiniteRuntime py (get event "runtime" .none)
  | .failed => MeasurableTraceback (get event "traceback" .none)
  | .received | .started | .retried | .revoked => True

theorem int_of_float_ok_iff (x : PyFloat) : (∃ i, int_of_float x = .ok i) ↔ x.isFinite := by
  cases x with
  | finite q => exact iff_of_true ⟨_, rfl⟩ trivial
  | inf n => exact iff_of_false (fun ⟨_, h⟩ => by cases h) id
  | nan => exact iff_of_false (fun ⟨_, h⟩ => by cases h) id

theorem scale_isFinite (x : PyFloat) :
    (x.scale 1000).isFinite ↔ ∃ q, x = .finite q ∧ |q * 1000| < DOUBLE_MAX_EXCLUSIVE := by
  cases x with
  | finite q =>
    rw [PyFloat.scale, roundDouble_isFinite_iff]
    simp
  | inf n => exact iff_of_false id fun ⟨_, h, _⟩ => by cases h
  | nan => exact iff_of_false id fun ⟨_, h, _⟩ => by cases h

theorem runtime_ms_ok_iff (py : Interp) (runtime : Val) :
    (∃ v, runtime_ms py runtime = .ok v) ↔ FiniteRuntime py runtime := by
  rw [runtime_ms, FiniteRuntime]
  split
  · rename_i h
    exact iff_of_true ⟨_, rfl⟩ (.inl h)
  · rename_i h
    rw [or_iff_right h, exists_ok_bind]
    constructor
    · rintro ⟨x, hx, v, hv⟩
      obtain ⟨ms, hms, -⟩ := except_bind_eq_ok.1 hv
      obtain ⟨q, rfl, hq⟩ := (scale_isFinite x).1 ((int_of_float_ok_iff _).1 ⟨ms, hms⟩)
      exact ⟨q, hx, hq⟩
    · rintro ⟨q, hq, hlt⟩
      obtain ⟨ms, hms⟩ := (int_of_float_ok_iff _).2 ((scale_isFinite (.finite q)).2 ⟨q, rfl, hlt⟩)
      exact ⟨_, hq, _, except_bind_eq_ok.2 ⟨ms, hms, rfl⟩⟩

theorem traceback_tail_ok_iff (traceback : Val) :
    (∃ v, traceback_tail traceback TRACEBACK_MAX_CHARS = .ok v) ↔ MeasurableTraceback traceback := by
  cases traceback with
  | none | str => exact iff_of_true ⟨_, rfl⟩ trivial
  | bool | int | float | obj => exact iff_of_false (by simp [traceback_tail]) id
  | list | tuple | dict =>
    rw [traceback_tail, MeasurableTraceback]
    split
    · rename_i h
      exact iff_of_true ⟨_, rfl⟩ h
    · rename_i h
      exact iff_of_false (by simp) h

/-! ## What is built of the event -/

/-- The kind of the events that a handler sinks. -/
def Handler.kind : Handler → EventKind
  | .received => .task_received
  | .started => .task_started
  | .succeeded => .task_succeeded
  | .failed => .task_failed
  | .retried => .task_retried
  | .revoked => .task_revoked

/-- The event reports the transition of this task. -/
def Reports (h : Handler) (uuid : String) (ev : Event) : Prop := ev.task_id = .str uuid ∧ ev.kind = h.kind

/-- Under whatever name, an event is built exactly if `c`. -/
def Builds (h : Handler) (uuid : String) (c : Prop) (build : Val → Except Exn Event) : Prop :=
  ∀ name, (c → ∃ ev, build name = .ok ev ∧ Reports h uuid ev) ∧ (¬ c → ∃ e, build name = .error e)

section Builders
variable (py : Interp) (redaction : RedactionEngine) (uuid : String)

theorem started_builds (worker : Val) : Builds .started uuid True fun name =>
    build_task_started_event py redaction (.str uuid) (.val name) .none none worker .none := by
  intro name
  obtain ⟨task_name, hname⟩ := resolve_task_name_str py (.val name) uuid .none
  refine ⟨fun _ => ?_, fun h => absurd trivial h⟩
  simp only [build_task_started_event, hname]
  exact ⟨_, rfl, rfl, rfl⟩

theorem succeeded_builds (result ms worker : Val) : Builds .succeeded uuid True fun name =>
    build_task_succeeded_event py redaction (.str uuid) (.val name) result ms worker .none := by
  intro name
  obtain ⟨task_name, hname⟩ := resolve_task_name_str py (.val name) uuid .none
  refine ⟨fun _ => ?_, fun h => absurd trivial h⟩
  simp only [build_task_succeeded_event, hname]
  exact ⟨_, rfl, rfl, rfl⟩

theorem failed_builds (exception : Raised) (exception_type : Option String) (traceback worker : Val) :
    Builds .failed uuid (MeasurableTraceback traceback) fun name =>
      build_task_failed_event py redaction (.str uuid) (.val name) exception exception_type traceback worker .none := by
  intro name
  obtain ⟨task_name, hname⟩ := resolve_task_name_str py (.val name) uuid .none
  simp only [build_task_failed_event, hname, ← traceback_tail_ok_iff]
  cases traceback_tail traceback TRACEBACK_MAX_CHARS with
  | ok v => exact ⟨fun _ => ⟨_, rfl, rfl, rfl⟩, fun h => absurd ⟨v, rfl⟩ h⟩
  | error e => exact ⟨fun h => absurd h (by simp), fun _ => ⟨e, rfl⟩⟩

theorem retried_builds (reason worker : Val) : Builds .retried uuid True fun name =>
    build_task_retried_event py redaction (.str uuid) (.val name) reason .none worker .none := by
  intro name
  obtain ⟨task_name, hname⟩ := resolve_task_name_str py (.val name) uuid .none
  refine ⟨fun _ => ?_, fun h => absurd trivial h⟩
  simp only [build_task_retried_event, hname]
  exact ⟨_, rfl, rfl, rfl⟩

theorem revoked_builds (terminated signum expired worker : Val) : Builds .revoked uuid True fun name =>
    build_task_revoked_event py (.str uuid) (.val name) terminated signum expired worker .none := by
  intro name
  obtain ⟨task_name, hname⟩ := resolve_task_name_str py (.val name) uuid .none
  refine ⟨fun _ => ?_, fun h => absurd trivial h⟩
  simp only [build_task_revoked_event, hname]
  exact ⟨_, rfl, rfl, rfl⟩

end Builders

/-! ## What is sunk -/

/-- One event more, of this task, exactly if `c`. -/
def Sinks (h : Handler) (uuid : String) (c : Prop) (s s' : Monitor) : Prop :=
  (c → ∃ ev, s'.sunk = s.sunk ++ [ev] ∧ Reports h uuid ev) ∧ (¬ c → s'.sunk = s.sunk)

theorem Sinks.congr {h : Handler} {uuid : String} {c : Prop} {s t s' t' : Monitor} (hs : Sinks h uuid c s s')
    (he : t.sunk = s.sunk) (he' : t'.sunk = s'.sunk) : Sinks h uuid c t t' := by
  rw [Sinks, he, he']
  exact hs

section Named
variable {event : Body} {uuid : String} (hu : get event "uuid" (.str "") = .str uuid)

section Cache
include hu

/-- An event whose uuid is a string can be named. -/
theorem resolve_name_ok (s : Monitor) : ∃ name s', resolve_name event s = .ok name s' ∧ s'.sunk = s.sunk := by
  have hcases : resolve_name event = pure (get event "name" .none) ∨ resolve_name event = cached_name (.str uuid) := by
    unfold resolve_name
    simp only
    split
    · exact .inl rfl
    · rw [hu, key, Val.key?_str]
      exact .inr rfl
  rcases hcases with h | h
  · exact ⟨_, s, by rw [h, pure_apply], rfl⟩
  · have hsilent := cached_name_silent (.str uuid) s
    rw [cached_name_apply, final_ok] at hsilent
    exact ⟨_, _, by rw [h, cached_name_apply], hsilent⟩

theorem cache_name_ok (s : Monitor) : ∃ s', cache_name env event s = .ok () s' ∧ s'.sunk = s.sunk := by
  have hcases : cache_name env event = pure () ∨
      cache_name env event = modify fun s => s.cache env.NAME_CACHE_MAX (.str uuid) (get event "name" .none) := by
    unfold cache_name
    simp only
    split
    · rename_i h
      rw [key, event_key_of_truthy h.1, event_key, hu, Val.key?_str]
      exact .inr rfl
    · exact .inl rfl
  rcases hcases with h | h
  · exact ⟨s, by rw [h, pure_apply], rfl⟩
  · exact ⟨_, (congrFun h s).trans (modify_apply _ s), rfl⟩

end Cache

variable (haccepts : ∀ ev, env.event.check ev = .ok ())
include haccepts

/-- What `Event(...)` makes of an event that it accepts. -/
theorem make_accepted {h : Handler} {ev : Event} (hrep : Reports h uuid ev) :
    ∃ made, env.event.make ev = .ok made ∧ Reports h (env.event.text uuid) made := by
  obtain ⟨hid, hkind⟩ := hrep
  have hmade : env.event.make ev =
      .ok { ev with engine := env.event.text ev.engine, task_id := ev.task_id.mapStr env.event.text } := by
    rw [EventModel.make, haccepts]
    rfl
  exact ⟨_, hmade, by rw [hid]; rfl, hkind⟩

include hu

theorem emit_sinks {h : Handler} {c : Prop} {build : Val → Except Exn Event} (hb : Builds h uuid c build) (s : Monitor) :
    Sinks h (env.event.text uuid) c s (final (emit env event build s)) := by
  obtain ⟨name, s', hn, hs'⟩ := resolve_name_ok hu s
  obtain ⟨hyes, hno⟩ := hb name
  rw [emit, bind_ok hn]
  constructor
  · intro hc
    obtain ⟨ev, hev, hrep⟩ := hyes hc
    obtain ⟨made, hmade, hreports⟩ := make_accepted haccepts hrep
    have hbuilt : build name >>= env.event.make = .ok made := except_bind_eq_ok.2 ⟨ev, hev, hmade⟩
    rw [hbuilt, ofOutcome_ok, bind_ok (pure_apply made s')]
    exact ⟨made, by rw [sink_sunk, hs'], hreports⟩
  · intro hc
    obtain ⟨e, he⟩ := hno hc
    rw [he]
    exact hs'

/-- The handlers but `on_received`, which no type is mapped to. -/
theorem body_sinks {h : Handler} (hne : h ≠ .received) (s : Monitor) :
    Sinks h (env.event.text uuid) (ReadableFields env.py h event) s (final (body env h event s)) := by
  cases h with
  | received => exact absurd rfl hne
  | started =>
    obtain ⟨s', hc, hs'⟩ := @cache_name_ok env event uuid hu s
    have hemit := @emit_sinks env event uuid hu haccepts _ _ _
      (started_builds env.py env.redaction uuid (get event "hostname" .none)) s'
    rw [body, on_started, bind_ok hc, hu]
    exact hemit.congr hs'.symm rfl
  | succeeded =>
    rw [body, on_succeeded, ReadableFields, ← runtime_ms_ok_iff]
    cases hms : runtime_ms env.py (get event "runtime" .none) with
    | error e => exact ⟨fun h => absurd h (by simp), fun _ => rfl⟩
    | ok ms =>
      have hemit := @emit_sinks env event uuid hu haccepts _ _ _
        (succeeded_builds env.py env.redaction uuid (get event "result" .none) ms (get event "hostname" .none)) s
      rw [ofOutcome_ok, bind_ok (pure_apply ms s), hu]
      have hsinks := hemit.congr rfl (silent_after (pop_name_silent event) s)
      exact ⟨fun _ => hsinks.1 trivial, fun hno => absurd ⟨ms, rfl⟩ hno⟩
  | failed =>
    rw [body, on_failed, hu]
    exact (emit_sinks hu haccepts (failed_builds env.py env.redaction uuid _ _ _ _) s).congr rfl
      (silent_after (pop_name_silent event) s)
  | retried =>
    rw [body, on_retried, hu]
    exact emit_sinks hu haccepts (retried_builds env.py env.redaction uuid _ _) s
  | revoked =>
    rw [body, on_revoked, hu]
    exact (emit_sinks hu haccepts (revoked_builds env.py uuid _ _ _ _) s).congr rfl (silent_after (pop_name_silent event) s)

end Named

theorem type_handler_ne_received {type : Val} {h : Handler} (ht : type_handler type = some h) : h ≠ .received := by
  unfold type_handler at ht
  split at ht <;> cases ht <;> decide

/-- Where `Event` accepts every event, a handler sinks one event of its kind for
the task exactly if it can read the fields it converts, whatever the others hold;
else it sinks nothing. -/
theorem transition_sunk_iff (env : Env) (haccepts : ∀ ev, env.event.check ev = .ok ()) {event : Body} {h : Handler}
    {uuid : String} (htype : type_handler (get event "type" (.str "")) = some h)
    (hu : get event "uuid" (.str "") = .str uuid) (s : Monitor) :
    ((∃ ev, (final (handle env h event s)).sunk = s.sunk ++ [ev] ∧ ev.task_id = .str (env.event.text uuid) ∧
        ev.kind = h.kind) ↔
      ReadableFields env.py h event) ∧
    (¬ ReadableFields env.py h event → (final (handle env h event s)).sunk = s.sunk) := by
  have hsame : (final (handle env h event s)).sunk = (final (body env h event s)).sunk := by rw [handle_apply]; rfl
  have hsinks := (@body_sinks env event uuid hu haccepts h (type_handler_ne_received htype) s).congr rfl hsame
  refine ⟨⟨?_, hsinks.1⟩, hsinks.2⟩
  rintro ⟨ev, hev, -⟩
  by_contra hno
  rw [hsinks.2 hno] at hev
  simp at hev

theorem transition_sunk_without_fields :
    let retried : Body := [("type", .str "task-retried"), ("uuid", .str "t1"), ("exception", .list [.int 1])]
    ∃ ev, (final (handle openMonitor .retried retried Monitor.init)).sunk = [ev] ∧ ev.task_id = .str "t1" ∧
      ev.kind = .task_retried :=
  (transition_sunk_iff openMonitor (fun _ => rfl) (by decide) (by decide) Monitor.init).1.2 trivial

/-- A success whose runtime is NaN, and a failure whose traceback is a number:
neither is reported. -/
theorem bad_field_hides_transition :
    let succeeded : Body := [("type", .str "task-succeeded"), ("uuid", .str "t1"), ("runtime", .float .nan)]
    let failed : Body := [("type", .str "task-failed"), ("uuid", .str "t2"), ("traceback", .int 5)]
    type_handler (get succeeded "type" (.str "")) = some .succeeded ∧
      type_handler (get failed "type" (.str "")) = some .failed ∧
      (final (handle openMonitor .succeeded succeeded Monitor.init)).sunk = [] ∧
      (final (handle openMonitor .failed failed Monitor.init)).sunk = [] := by
  refine ⟨by decide, by decide, ?_, ?_⟩
  · decide +kernel
  · decide +kernel

end Z4jCelery.Events.Broker
