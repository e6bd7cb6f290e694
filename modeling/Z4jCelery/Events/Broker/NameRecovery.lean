import Z4jCelery.Events.Broker.Dispatch
import Z4jCelery.Events.Broker.Redaction
/-!
# Recovering the name of a task

An event without a name is sunk under the name that the cache holds for its
uuid. Only a task-started event fills the cache on the way through `dispatch`:
`task-received` and `task-sent`, which carry the name, reach no handler.
`recovers` is the run lemma; `name_recovered` says which runs recover a name,
and that no other name is ever recovered.
-/

namespace Z4jCelery.Events.Broker

open Py Z4jCelery.Core Events Mapper Lib

variable {env : Env}

/-! ## The elements that a run evaluates -/

/-- The elements that the messages of a run evaluate without raising. -/
def dispatched (env : Env) (ds : List Delivery) : List Val :=
  ds.flatMap fun d => d.events.takeWhile fun ev => !raises env ev

/-- The monitor that has handled the elements. -/
def monitor (env : Env) (evs : List Val) : Monitor := handleAll env (evs.filterMap (reached env)) Monitor.init

/-- The events sunk for an element that comes after others. -/
def sunk_for (env : Env) (before : List Val) (ev : Val) : List Event :=
  (monitor env (before ++ [ev])).sunk.drop (monitor env before).sunk.length

/-- The monitors hold the same names, and sank the same events. -/
structure SameNames (s s' : Monitor) : Prop where
  cache : s.name_cache = s'.name_cache
  sunk : s.sunk = s'.sunk

theorem handleAll_append (cs cs' : List (Handler × Body)) (s : Monitor) :
    handleAll env (cs ++ cs') s = handleAll env cs' (handleAll env cs s) := by
  induction cs generalizing s with
  | nil => rfl
  | cons call cs ih => exact ih _

theorem monitor_append (evs evs' : List Val) :
    monitor env (evs ++ evs') = handleAll env (evs'.filterMap (reached env)) (monitor env evs) := by
  rw [monitor, List.filterMap_append, handleAll_append]
  rfl

theorem monitor_reached {ev : Val} {h : Handler} {event : Body} (hr : reached env ev = some (h, event))
    (evs : List Val) : monitor env (evs ++ [ev]) = final (handle env h event (monitor env evs)) := by
  rw [monitor_append, List.filterMap_cons_some hr]
  rfl

theorem monitor_skipped {ev : Val} (hr : reached env ev = none) (evs : List Val) :
    monitor env (evs ++ [ev]) = monitor env evs := by
  rw [monitor_append, List.filterMap_cons_none hr]
  rfl

theorem sameNames_respects (N : Nat) : Respects N SameNames where
  names h := h.cache
  sunk h := h.sunk
  cache _ _ _ _ h := ⟨by simp only [Monitor.cache, h.cache], h.sunk⟩
  hit _ _ _ h := ⟨by simp only [Monitor.hit, h.cache], h.sunk⟩
  pop _ _ _ h := ⟨by simp only [Monitor.pop, h.cache], h.sunk⟩
  sink _ _ _ h := ⟨h.cache, by simp only [h.sunk]⟩

theorem handleAll_sameNames (cs : List (Handler × Body)) {s s' : Monitor} (h : SameNames s s') :
    SameNames (handleAll env cs s) (handleAll env cs s') := by
  induction cs generalizing s s' with
  | nil => exact h
  | cons call cs ih =>
    obtain ⟨handler, event⟩ := call
    have hbody := ((sameNames_respects env.NAME_CACHE_MAX).body handler event s s' h).2
    refine ih ?_
    rw [handle_apply, handle_apply]
    exact ⟨hbody.cache, hbody.sunk⟩

/-- Messages do to names and events what their dispatched elements do. -/
theorem deliverAll_sameNames (ds : List Delivery) {s s' : Monitor} (h : SameNames s s') :
    SameNames (deliverAll env ds s) (handleAll env ((dispatched env ds).filterMap (reached env)) s') := by
  induction ds generalizing s s' with
  | nil => exact h
  | cons d ds ih =>
    rw [dispatched, List.flatMap_cons, List.filterMap_append, handleAll_append]
    refine ih ?_
    have hcalls : SameNames (handleAll env (calls env d.events) s) (handleAll env (calls env d.events) s') :=
      handleAll_sameNames _ h
    rw [dispatch_apply, received]
    split
    · exact ⟨hcalls.cache, hcalls.sunk⟩
    · exact ⟨hcalls.cache, hcalls.sunk⟩

theorem deliverAll_sunk (ds : List Delivery) :
    (deliverAll env ds Monitor.init).sunk = (monitor env (dispatched env ds)).sunk :=
  (deliverAll_sameNames ds ⟨rfl, rfl⟩).sunk

/-- Events are only ever added. -/
def appends : Frame Monitor where
  rel s s' := s.sunk <+: s'.sunk
  refl _ := List.prefix_rfl
  trans h h' := h.trans h'

theorem allows_appends (N : Nat) (event : Body) : Allows N event appends where
  cache _ _ _ _ _ := List.prefix_rfl
  hit _ _ _ := List.prefix_rfl
  pop _ _ _ := List.prefix_rfl
  sink _ _ := List.prefix_append _ _

theorem sunk_monitor_snoc (before : List Val) (ev : Val) :
    (monitor env (before ++ [ev])).sunk = (monitor env before).sunk ++ sunk_for env before ev := by
  have happend : (monitor env before).sunk <+: (monitor env (before ++ [ev])).sunk := by
    cases hr : reached env ev with
    | none => exact (congrArg Monitor.sunk (monitor_skipped hr before)).symm ▸ List.prefix_rfl
    | some call =>
      rw [monitor_reached hr, handle_apply]
      exact (allows_appends env.NAME_CACHE_MAX call.2).body call.1 (monitor env before)
  exact (List.prefix_iff_eq_append.1 happend).symm

/-! ## The name that an event is sunk under -/

theorem event_task_name (kind : EventKind) (task_id : Val) (task : TaskArg) (task_name : String) (queue worker : Val)
    {extra : List (String × Val)} (h : ∀ kv ∈ extra, kv.1 ≠ "task_name") :
    lookup "task_name" (event kind task_id task task_name queue worker extra).data = some (.str task_name) :=
  lookup_task_name task_name queue worker (get_meta task) h

/-- The event is named after `name`, as far as that is a name. -/
def NamedAfter (env : Env) (uuid name : Val) (ev : Event) : Prop :=
  ∃ task_name queue, Mapper.resolve_task_name env.py (.val name) none uuid queue = .ok task_name ∧
    lookup "task_name" ev.data = some (.str task_name)

/-- What `Event(...)` makes of an event has its name. -/
theorem NamedAfter.make {uuid name : Val} {ev made : Event} (h : NamedAfter env uuid name ev)
    (hmade : env.event.make ev = .ok made) : NamedAfter env uuid name made := by
  rw [NamedAfter, (EventModel.make_ok hmade).2.1]
  exact h

theorem received_namedAfter {uuid name args queue parent_task_id root_task_id : Val}
    {kwargs : Option (List (String × Val))} {ev : Event}
    (h : build_task_received_event env.py env.redaction uuid (.val name) args kwargs queue parent_task_id
      root_task_id = .ok ev) : NamedAfter env uuid name ev := by
  obtain ⟨task_name, hn, h⟩ := except_bind_eq_ok.1 h
  obtain ⟨_, -, h⟩ := except_bind_eq_ok.1 h
  obtain ⟨_, -, h⟩ := except_bind_eq_ok.1 h
  obtain rfl := Except.ok.inj h
  refine ⟨task_name, queue, hn, event_task_name _ _ _ _ _ _ ?_⟩
  rw [entry, entry]
  split <;> split <;> simp

theorem started_namedAfter {uuid name args worker queue : Val} {kwargs : Option (List (String × Val))} {ev : Event}
    (h : build_task_started_event env.py env.redaction uuid (.val name) args kwargs worker queue = .ok ev) :
    NamedAfter env uuid name ev := by
  obtain ⟨task_name, hn, h⟩ := except_bind_eq_ok.1 h
  obtain ⟨_, -, h⟩ := except_bind_eq_ok.1 h
  obtain ⟨_, -, h⟩ := except_bind_eq_ok.1 h
  obtain rfl := Except.ok.inj h
  exact ⟨task_name, queue, hn, event_task_name _ _ _ _ _ _ (by simp)⟩

theorem succeeded_namedAfter {uuid name result runtime_ms worker : Val} {ev : Event}
    (h : build_task_succeeded_event env.py env.redaction uuid (.val name) result runtime_ms worker .none = .ok ev) :
    NamedAfter env uuid name ev := by
  obtain ⟨task_name, hn, -, htask, -⟩ := build_task_succeeded_event_ok h
  exact ⟨task_name, .none, hn, htask⟩

theorem failed_namedAfter {uuid name traceback worker queue : Val} {exception : Raised}
    {exception_type : Option String} {ev : Event}
    (h : build_task_failed_event env.py env.redaction uuid (.val name) exception exception_type traceback worker
      queue = .ok ev) : NamedAfter env uuid name ev := by
  obtain ⟨task_name, hn, h⟩ := except_bind_eq_ok.1 h
  obtain ⟨_, -, h⟩ := except_bind_eq_ok.1 h
  obtain rfl := Except.ok.inj h
  exact ⟨task_name, queue, hn, event_task_name _ _ _ _ _ _ (by simp)⟩

theorem retried_namedAfter {uuid name reason einfo worker queue : Val} {ev : Event}
    (h : build_task_retried_event env.py env.redaction uuid (.val name) reason einfo worker queue = .ok ev) :
    NamedAfter env uuid name ev := by
  obtain ⟨task_name, hn, h⟩ := except_bind_eq_ok.1 h
  obtain rfl := Except.ok.inj h
  exact ⟨task_name, queue, hn, event_task_name _ _ _ _ _ _ (by simp)⟩

theorem revoked_namedAfter {uuid name terminated signum expired worker queue : Val} {ev : Event}
    (h : build_task_revoked_event env.py uuid (.val name) terminated signum expired worker queue = .ok ev) :
    NamedAfter env uuid name ev := by
  obtain ⟨task_name, hn, h⟩ := except_bind_eq_ok.1 h
  obtain rfl := Except.ok.inj h
  exact ⟨task_name, queue, hn, event_task_name _ _ _ _ _ _ (by simp)⟩

theorem emit_namedAfter {event : Body} {build : Val → Except Exn Event}
    (hbuild : ∀ name ev, build name = .ok ev → NamedAfter env (get event "uuid" (.str "")) name ev) (s : Monitor) :
    (final (emit env event build s)).sunk = s.sunk ∨
      ∃ name s' ev, resolve_name event s = .ok name s' ∧ NamedAfter env (get event "uuid" (.str "")) name ev ∧
        (final (emit env event build s)).sunk = s.sunk ++ [ev] := by
  rcases @emit_sunk env event build s with he | ⟨name, s', ev, made, hr, hb, hmade, he⟩
  · exact .inl he
  · exact .inr ⟨name, s', made, hr, (hbuild name ev hb).make hmade, he⟩

theorem cache_name_nameless {event : Body} (hn : (get event "name" .none).truthy = false) :
    cache_name env event = pure () := by
  rw [cache_name, if_neg fun h => by rw [hn] at h; exact Bool.false_ne_true h.2]

/-- A handler names the event it sinks after what a nameless event resolves to:
the name is not popped before. -/
theorem body_namedAfter {event : Body} (hn : (get event "name" .none).truthy = false) (h : Handler) (s : Monitor) :
    (final (body env h event s)).sunk = s.sunk ∨
      ∃ name s' ev, resolve_name event s = .ok name s' ∧ NamedAfter env (get event "uuid" (.str "")) name ev ∧
        (final (body env h event s)).sunk = s.sunk ++ [ev] := by
  cases h with
  | received =>
    rw [body, on_received, cache_name_nameless hn, pure_bind]
    exact emit_namedAfter (fun _ _ => received_namedAfter) s
  | started =>
    rw [body, on_started, cache_name_nameless hn, pure_bind]
    exact emit_namedAfter (fun _ _ => started_namedAfter) s
  | succeeded =>
    rw [body, on_succeeded]
    cases runtime_ms env.py (get event "runtime" .none) with
    | error e => exact .inl rfl
    | ok ms =>
      rw [ofOutcome_ok, pure_bind, silent_after (pop_name_silent event)]
      exact emit_namedAfter (fun _ _ => succeeded_namedAfter) s
  | failed =>
    rw [body, on_failed, silent_after (pop_name_silent event)]
    exact emit_namedAfter (fun _ _ => failed_namedAfter) s
  | retried => exact emit_namedAfter (fun _ _ => retried_namedAfter) s
  | revoked =>
    rw [body, on_revoked, silent_after (pop_name_silent event)]
    exact emit_namedAfter (fun _ _ => revoked_namedAfter) s

/-! ## What the history holds -/

/-- New operations are on the key of the event, and no empty uuid is stored. -/
def keyed (event : Body) : Frame Monitor where
  rel s s' := ∃ ops, s'.history = ops ++ s.history ∧
    (∀ o ∈ ops, event_key event = some o.key) ∧ ∀ v, Lru.Op.cache (.str "") v ∉ ops
  refl _ := ⟨[], rfl, by simp, by simp⟩
  trans := by
    rintro s t u ⟨ops, h, hk, hc⟩ ⟨ops', h', hk', hc'⟩
    refine ⟨ops' ++ ops, by rw [h', h, List.append_assoc], fun o ho => ?_, fun v hv => ?_⟩
    · exact (List.mem_append.1 ho).elim (hk' o) (hk o)
    · exact (List.mem_append.1 hv).elim (hc' v) (hc v)

theorem allows_keyed (N : Nat) (event : Body) : Allows N event (keyed event) where
  cache k name hu hk s := by
    refine ⟨[.cache k name], rfl, by simpa [Lru.Op.key] using hk, fun v hv => ?_⟩
    -- an empty uuid is falsy, and is not stored
    obtain ⟨rfl, -⟩ := Lru.Op.cache.inj (List.mem_singleton.1 hv)
    rw [← event_key_of_truthy hu, Val.key?_eq_str] at hk
    rw [hk, truthy_str] at hu
    simp at hu
  hit k hk s := ⟨[.hit k], rfl, by simpa [Lru.Op.key] using hk, by simp⟩
  pop k hk s := ⟨[.pop k], rfl, by simpa [Lru.Op.key] using hk, by simp⟩
  sink _ s := ⟨[], rfl, by simp, by simp⟩

theorem handle_keyed (h : Handler) (event : Body) (s : Monitor) : (keyed event).rel s (final (handle env h event s)) := by
  rw [handle_apply, final_ok]
  exact (allows_keyed env.NAME_CACHE_MAX event).body h s

/-- The operations of a run are on the keys of its elements. -/
theorem handleAll_keyed (evs : List Val) (s : Monitor) :
    ∃ ops, (handleAll env (evs.filterMap (reached env)) s).history = ops ++ s.history ∧
      (∀ o ∈ ops, ∃ event, .dict event ∈ evs ∧ event_key event = some o.key) ∧
      ∀ v, Lru.Op.cache (.str "") v ∉ ops := by
  induction evs generalizing s with
  | nil => exact ⟨[], rfl, by simp, by simp⟩
  | cons ev evs ih =>
    cases hr : reached env ev with
    | none =>
      rw [List.filterMap_cons_none hr]
      obtain ⟨ops, hops, hkeys, hblank⟩ := ih s
      refine ⟨ops, hops, fun o ho => ?_, hblank⟩
      obtain ⟨event, hmem, hk⟩ := hkeys o ho
      exact ⟨event, List.mem_cons_of_mem _ hmem, hk⟩
    | some call =>
      obtain ⟨h, event⟩ := call
      rw [List.filterMap_cons_some hr]
      obtain ⟨ops, hops, hkeys, hblank⟩ := @handle_keyed env h event s
      obtain ⟨ops', hops', hkeys', hblank'⟩ := ih (final (handle env h event s))
      refine ⟨ops' ++ ops, by rw [handleAll, hops', hops, List.append_assoc], fun o ho => ?_, fun v hv => ?_⟩
      · rcases List.mem_append.1 ho with ho | ho
        · obtain ⟨event', hmem, hk⟩ := hkeys' o ho
          exact ⟨event', List.mem_cons_of_mem _ hmem, hk⟩
        · exact ⟨event, List.mem_cons.2 (.inl (reached_eq_some.1 hr).1.symm), hkeys o ho⟩
      · exact (List.mem_append.1 hv).elim (hblank' v) (hblank v)

/-! ## Keeping a name -/

/-- The keys of the other uuids that events carry. -/
def other_uuids (u : String) (evs : List Val) : List Val :=
  (evs.filterMap fun ev => ev.dict?.bind fun event => (lookup "uuid" event).bind Val.key?).filter (· ≠ .str u)

/-- A later event for `u` has no name; in between, no terminal event for `u` and
fewer than `N` other uuids. -/
structure Follows (N : Nat) (u : String) (between : List Val) (later : Body) : Prop where
  uuid : get later "uuid" (.str "") = .str u
  nameless : (get later "name" .none).truthy = false
  alive : ∀ event, .dict event ∈ between → get event "uuid" (.str "") = .str u →
    ∀ h, type_handler (get event "type" (.str "")) = some h → h.terminal = false
  others : (other_uuids u between).dedup.length < N

/-- The event names `u`. -/
structure Names (u n : String) (event : Body) : Prop where
  uuid : get event "uuid" .none = .str u
  uuid_ne : u ≠ ""
  name : get event "name" .none = .str n
  name_ne : n ≠ ""

/-- The naming event is a task-started event, and no task-started event in
between gives `u` another name. -/
structure Starts (u n : String) (first : Body) (between : List Val) : Prop where
  started : get first "type" (.str "") = .str "task-started"
  agreed : ∀ event, .dict event ∈ between → get event "type" (.str "") = .str "task-started" →
    get event "uuid" .none = .str u → (get event "name" .none).truthy = true → get event "name" .none = .str n

theorem type_handler_caches {type : Val} {h : Handler} (ht : type_handler type = some h) (hc : h.caches = true) :
    type = .str "task-started" ∧ h = .started := by
  unfold type_handler at ht
  split at ht <;> cases ht <;> first | exact ⟨rfl, rfl⟩ | cases hc

theorem handle_lastNamed (u : String) (h : Handler) (event : Body) (s : Monitor) :
    ∃ completed, lastNamed u (final (handle env h event s)).log = after u h event completed (lastNamed u s.log) := by
  rw [handle_apply, final_ok]
  refine ⟨completes (body env h event s), ?_⟩
  show after u h event _ (lastNamed u (final (body env h event s)).log) = _
  rw [((allows_unaccounted env.NAME_CACHE_MAX event).body h s).1]

/-- A name is kept through events that neither end the task nor rename it. -/
theorem handleAll_lastNamed {u n : String} {between : List Val}
    (halive : ∀ event, .dict event ∈ between → get event "uuid" (.str "") = .str u →
      ∀ h, type_handler (get event "type" (.str "")) = some h → h.terminal = false)
    (hagreed : ∀ event, .dict event ∈ between → get event "type" (.str "") = .str "task-started" →
      get event "uuid" .none = .str u → (get event "name" .none).truthy = true → get event "name" .none = .str n)
    {s : Monitor} (hs : lastNamed u s.log = some (.str n)) :
    lastNamed u (handleAll env (between.filterMap (reached env)) s).log = some (.str n) := by
  induction between generalizing s with
  | nil => exact hs
  | cons ev evs ih =>
    have ih' := @ih (fun event hmem => halive event (List.mem_cons_of_mem _ hmem))
      (fun event hmem => hagreed event (List.mem_cons_of_mem _ hmem))
    cases hr : reached env ev with
    | none => rw [List.filterMap_cons_none hr]; exact ih' hs
    | some call =>
      obtain ⟨h, event⟩ := call
      obtain ⟨rfl, htype, -⟩ := reached_eq_some.1 hr
      rw [List.filterMap_cons_some hr]
      refine ih' ?_
      obtain ⟨completed, hlast⟩ := @handle_lastNamed env u h event s
      rw [hlast, hs, after]
      cases hn : named u h event with
      | some name =>
        -- a task-started event for `u`: it gives the same name
        rw [named] at hn
        split at hn
        · rename_i hc
          obtain ⟨hcaches, huuid, -, htruthy⟩ := hc
          obtain rfl := Option.some.inj hn
          exact congrArg some
            (hagreed event List.mem_cons_self (type_handler_caches htype hcaches).1 huuid htruthy)
        · cases hn
      | none =>
        refine if_neg ?_
        rintro ⟨hterminal, -, huuid⟩
        rw [halive event List.mem_cons_self huuid h htype] at hterminal
        cases hterminal

theorem get_of_get {event : Body} {k s : String} (h : get event k .none = .str s) (default : Val) :
    get event k default = .str s := by
  rw [Py.get] at h ⊢
  cases hl : lookup k event with
  | none => rw [hl] at h; cases h
  | some v => rw [hl] at h; exact h

/-- Right after the naming event nothing else was stored or hit. -/
theorem handle_started_names {u n : String} {event : Body} (h : Names u n event) (s : Monitor) :
    Lru.othersSince (.str u) (final (handle env .started event s)).history = [] := by
  have hkey : event_key event = some (.str u) := by rw [event_key, get_of_get h.uuid, Val.key?_str]
  have hcached : cache_name env event s = .ok () (s.cache env.NAME_CACHE_MAX (.str u) (.str n)) := by
    rw [cache_name, if_pos ⟨by rw [h.uuid]; simp [h.uuid_ne], by rw [h.name]; simp [h.name_ne]⟩, h.uuid, h.name, key,
      Val.key?_str]
    rfl
  have hemit := @Allows.emit env (keyed event) event (allows_keyed env.NAME_CACHE_MAX event)
    (fun name => build_task_started_event env.py env.redaction (get event "uuid" (.str "")) (.val name) .none none
      (get event "hostname" .none) .none) (s.cache env.NAME_CACHE_MAX (.str u) (.str n))
  obtain ⟨ops, hops, hkeys, -⟩ := hemit
  rw [handle_apply, final_ok]
  show Lru.othersSince _ (final (on_started env event s)).history = []
  rw [on_started, bind_ok hcached, hops, List.eq_nil_iff_forall_not_mem]
  intro k hk
  rcases Lru.mem_othersSince_append hk with ⟨hne, o, ho, rfl⟩ | hk
  · exact hne (Option.some.inj ((hkeys o ho).symm.trans hkey))
  · rw [Monitor.cache, Lru.othersSince, if_pos rfl] at hk
    cases hk

theorem handle_started_lastNamed {u n : String} {event : Body} (h : Names u n event) (s : Monitor) :
    lastNamed u (final (handle env .started event s)).log = some (.str n) := by
  obtain ⟨completed, hlast⟩ := @handle_lastNamed env u .started event s
  have hnamed : named u .started event = some (.str n) := by
    simp [named, Handler.caches, h.uuid, h.uuid_ne, h.name, h.name_ne]
  rw [hlast, after, hnamed]

theorem monitor_cacheInv (evs : List Val) : CacheInv env (monitor env evs) := handleAll_cacheInv _ cacheInv_init

theorem monitor_no_blank (evs : List Val) (v : Val) : Lru.Op.cache (.str "") v ∉ (monitor env evs).history := by
  obtain ⟨ops, hops, -, hblank⟩ := @handleAll_keyed env evs Monitor.init
  rw [monitor, hops, Monitor.init, List.append_nil]
  exact hblank v

theorem event_key_eq_some {event : Body} {k : Val} (h : event_key event = some k) (hk : k ≠ .str "") :
    (lookup "uuid" event).bind Val.key? = some k := by
  rw [event_key, Py.get] at h
  cases hl : lookup "uuid" event with
  | none =>
    rw [hl, Option.getD_none, Val.key?_str] at h
    exact absurd (Option.some.inj h).symm hk
  | some v => rw [hl] at h; exact h

theorem reached_started (hf : env.hostname_filter = none) {event : Body}
    (ht : get event "type" (.str "") = .str "task-started") : reached env (.dict event) = some (.started, event) :=
  reached_eq_some.2 ⟨rfl, by rw [ht]; rfl, by rw [hf]; rfl⟩

/-- The name is in the cache when the later event comes. -/
theorem recovers (hf : env.hostname_filter = none) (before : List Val) {u n : String} {first later : Body}
    {between : List Val} (hnames : Names u n first) (hstarts : Starts u n first between)
    (hfollows : Follows env.NAME_CACHE_MAX u between later) :
    (monitor env (before ++ .dict first :: between)).name_cache.get? (.str u) = some (.str n) := by
  have hinv := @monitor_cacheInv env (before ++ .dict first :: between)
  have hblank := @monitor_no_blank env (before ++ .dict first :: between)
  have hrun : monitor env (before ++ .dict first :: between) = handleAll env (between.filterMap (reached env))
      (final (handle env .started first (monitor env before))) := by
    rw [monitor_append, List.filterMap_cons_some (reached_started hf hstarts.started)]
    rfl
  rw [hrun] at hinv hblank ⊢
  have hlast := @handleAll_lastNamed env u n between hfollows.alive hstarts.agreed _
    (@handle_started_lastNamed env u n first hnames (monitor env before))
  obtain ⟨ops, hops, hkeys, -⟩ := @handleAll_keyed env between (final (handle env .started first (monitor env before)))
  generalize handleAll env _ _ = s at hinv hblank hlast hops ⊢
  -- what was stored or hit since are uuids of the events in between
  have hothers : Lru.othersSince (.str u) s.history ⊆ other_uuids u between := by
    intro k hk
    obtain ⟨v, hv⟩ := Lru.othersSince_cached hinv.ok.effective hk
    have hne : k ≠ .str "" := by
      rintro rfl
      exact hblank v hv
    rw [hops] at hk
    rcases Lru.mem_othersSince_append hk with ⟨hu, o, ho, rfl⟩ | hk
    · obtain ⟨event, hmem, hkey⟩ := hkeys o ho
      refine List.mem_filter.2 ⟨List.mem_filterMap.2 ⟨.dict event, hmem, event_key_eq_some hkey hne⟩, ?_⟩
      simpa using hu
    · rw [handle_started_names hnames] at hk
      cases hk
  have hlength : (Lru.othersSince (.str u) s.history).dedup.length ≤ (other_uuids u between).dedup.length :=
    (List.Nodup.subperm (List.nodup_dedup _)
      fun k hk => List.mem_dedup.2 (hothers (List.mem_dedup.1 hk))).length_le
  rw [hinv.ok.cache]
  exact Lru.get?_retained hinv.ok.effective ((hinv.names u).trans hlast) (Nat.lt_of_le_of_lt hlength hfollows.others)

/-! ## The names that are sunk -/

/-- The name that an element brings into the cache for `u`: only a task-started
event does. -/
def started_name (env : Env) (u : String) (ev : Val) : Option Val :=
  match ev with
  | .dict event =>
    if accepted env event ∧ get event "type" (.str "") = .str "task-started" ∧ get event "uuid" .none = .str u ∧
      u ≠ "" ∧ (get event "name" .none).truthy then some (get event "name" .none) else none
  | _ => none

/-- A nameless event is sunk under what the cache holds for its uuid. -/
theorem sunk_for_nameless {before : List Val} {later : Body} {u : String} {ev : Event}
    (hu : get later "uuid" (.str "") = .str u) (hn : (get later "name" .none).truthy = false)
    (hev : ev ∈ sunk_for env before (.dict later)) :
    NamedAfter env (.str u) (((monitor env before).name_cache.get? (.str u)).getD .none) ev := by
  have hsunk := @sunk_monitor_snoc env before (.dict later)
  cases hr : reached env (.dict later) with
  | none =>
    rw [monitor_skipped hr] at hsunk
    rw [List.self_eq_append_right.1 hsunk] at hev
    cases hev
  | some call =>
    obtain ⟨h, event⟩ := call
    obtain rfl := Val.dict.inj (reached_eq_some.1 hr).1
    rw [monitor_reached hr, handle_apply, final_ok] at hsunk
    rcases @body_namedAfter env later hn h (monitor env before) with hsame | ⟨name, s', ev', hname, hafter, hadd⟩
    · rw [List.self_eq_append_right.1 (hsame.symm.trans hsunk)] at hev
      cases hev
    · have hone := List.append_cancel_left (hsunk.symm.trans hadd)
      rw [hone, List.mem_singleton] at hev
      subst hev
      obtain ⟨t, ht⟩ := resolve_nameless (s := monitor env before) hu hn
      rw [ht] at hname
      cases hname
      rw [hu] at hafter
      exact hafter

theorem handle_latestName (u : String) (h : Handler) (event : Body) (s : Monitor) :
    latestName u (final (handle env h event s)).log = (named u h event).or (latestName u s.log) := by
  rw [handle_apply, final_ok]
  show (named u h event).or (latestName u (final (body env h event s)).log) = _
  rw [((allows_unaccounted env.NAME_CACHE_MAX event).body h s).1]

theorem started_name_reached {ev : Val} {h : Handler} {event : Body} (hr : reached env ev = some (h, event))
    (u : String) : started_name env u ev = named u h event := by
  obtain ⟨rfl, ht, ha⟩ := reached_eq_some.1 hr
  have ha : accepted env event = true := ha
  rw [started_name, named]
  by_cases hc : h.caches = true
  · obtain ⟨htype, -⟩ := type_handler_caches ht hc
    simp only [ha, htype, hc, true_and]
  · have htype : get event "type" (.str "") ≠ .str "task-started" := by
      intro htype
      rw [htype] at ht
      obtain rfl := Option.some.inj ht
      exact hc rfl
    rw [if_neg fun hx => htype hx.2.1, if_neg fun hx => hc hx.1]

theorem started_name_skipped {ev : Val} (hr : reached env ev = none) (u : String) : started_name env u ev = none := by
  cases ev with
  | dict event =>
    rw [started_name, if_neg]
    rintro ⟨ha, ht, -⟩
    rw [reached, if_pos ha, ht] at hr
    cases hr
  | _ => rfl

theorem latestName_monitor (u : String) (evs : List Val) :
    latestName u (monitor env evs).log = evs.reverse.findSome? (started_name env u) := by
  induction evs using List.reverseRecOn with
  | nil => rfl
  | append_singleton evs ev ih =>
    rw [List.reverse_append, List.reverse_singleton, List.singleton_append, List.findSome?_cons]
    cases hr : reached env ev with
    | none => rw [monitor_skipped hr, started_name_skipped hr, ih]
    | some call =>
      obtain ⟨h, event⟩ := call
      rw [monitor_reached hr, handle_latestName, started_name_reached hr, ih]
      cases named u h event <;> rfl

/-- A name that is no placeholder is the one that the latest task-started event
gave `u`. -/
theorem sunk_name_started {before : List Val} {later : Body} {u task_name : String} {ev : Event}
    (hu : get later "uuid" (.str "") = .str u) (hn : (get later "name" .none).truthy = false)
    (hev : ev ∈ sunk_for env before (.dict later)) (hname : lookup "task_name" ev.data = some (.str task_name))
    (hreal : startswith task_name "<unknown" = false) :
    before.reverse.findSome? (started_name env u) = some (.str task_name) := by
  obtain ⟨found, queue, hfound, htask⟩ := sunk_for_nameless hu hn hev
  obtain rfl : found = task_name := Val.str.inj (Option.some.inj (htask.symm.trans hname))
  have hinv := @monitor_cacheInv env before
  have hown : own_name env.py (.val (((monitor env before).name_cache.get? (.str u)).getD .none)) ≠ none := by
    intro hnone
    rw [resolve_task_name_placeholder hnone hfound] at hreal
    cases hreal
  rw [← latestName_monitor]
  refine lastNamed_latest ((hinv.names u).symm.trans (Lru.get?_sound (N := env.NAME_CACHE_MAX) ?_))
  rw [← hinv.ok.cache]
  cases hg : (monitor env before).name_cache.get? (.str u) with
  | none => rw [hg] at hown; exact absurd rfl hown
  | some v =>
    rw [hg, Option.getD_some] at hown hfound
    cases v with
    | str m =>
      rw [own_name] at hown
      split at hown
      · rename_i hm
        rw [Mapper.resolve_task_name, own_name, if_pos hm] at hfound
        rw [Except.ok.inj hfound]
      · exact absurd rfl hown
    | _ => exact absurd rfl hown

/-- Without a hostname filter, the events sunk in a run are those of its
dispatched elements one after another. A nameless event is sunk under the name
that an earlier event gave its uuid when that was a task-started event, and no
other since gave the uuid another name. Any other name that a nameless event is
sunk under is a placeholder. -/
theorem name_recovered (env : Env) (hf : env.hostname_filter = none) :
    (∀ ds, (deliverAll env ds Monitor.init).sunk = (monitor env (dispatched env ds)).sunk) ∧
    (∀ before ev, (monitor env (before ++ [ev])).sunk = (monitor env before).sunk ++ sunk_for env before ev) ∧
    (∀ ds before first between later after u n,
      dispatched env ds = before ++ .dict first :: between ++ .dict later :: after → Names u n first →
      Follows env.NAME_CACHE_MAX u between later → Starts u n first between →
      ∀ ev ∈ sunk_for env (before ++ .dict first :: between) (.dict later),
        lookup "task_name" ev.data = some (.str n)) ∧
    ∀ ds before later after u task_name, dispatched env ds = before ++ .dict later :: after →
      get later "uuid" (.str "") = .str u → (get later "name" .none).truthy = false →
      ∀ ev ∈ sunk_for env before (.dict later), lookup "task_name" ev.data = some (.str task_name) →
        startswith task_name "<unknown" = true ∨
          before.reverse.findSome? (started_name env u) = some (.str task_name) := by
  refine ⟨deliverAll_sunk, sunk_monitor_snoc, ?_, ?_⟩
  · intro ds before first between later after u n _ hnames hfollows hstarts ev hev
    obtain ⟨task_name, queue, hresolved, hname⟩ := sunk_for_nameless hfollows.uuid hfollows.nameless hev
    rw [recovers hf before hnames hstarts hfollows, Option.getD_some, Mapper.resolve_task_name, own_name,
      if_pos hnames.name_ne] at hresolved
    rw [hname, ← Except.ok.inj hresolved]
  · intro ds before later after u task_name _ hu hn ev hev hname
    cases hreal : startswith task_name "<unknown" with
    | true => exact .inl rfl
    | false => exact .inr (sunk_name_started hu hn hev hname hreal)

/-- A worker's start and success of one task: the success is sunk under the name
in the start. -/
theorem name_recovered_started :
    let env : Env := ⟨.plain, ⟨id⟩, .lenient, none, 50000, fun _ => .ok ()⟩
    let started : Body := [("type", .str "task-started"), ("uuid", .str "u1"), ("name", .str "app.add")]
    let succeeded : Body := [("type", .str "task-succeeded"), ("uuid", .str "u1")]
    ∃ ev, sunk_for env [.dict started] (.dict succeeded) = [ev] ∧ lookup "task_name" ev.data = some (.str "app.add") := by
  intro env started succeeded
  have hlength : (sunk_for env [.dict started] (.dict succeeded)).length = 1 := by decide +kernel
  obtain ⟨ev, hev⟩ := List.length_eq_one_iff.1 hlength
  have hnamed := (name_recovered env rfl).2.2.1 [⟨.dict started, .ok ()⟩, ⟨.dict succeeded, .ok ()⟩] [] started []
    succeeded [] "u1" "app.add" rfl ⟨rfl, by decide, rfl, by decide⟩ ⟨rfl, rfl, by simp, by decide⟩ ⟨rfl, by simp⟩
  refine ⟨ev, hev, hnamed ev ?_⟩
  change ev ∈ sunk_for env [.dict started] (.dict succeeded)
  rw [hev]
  exact List.mem_singleton_self ev

/-- The producer's and the worker's events that carry the name reach no
handler: the success that follows them is sunk under a placeholder. -/
theorem received_name_not_recovered :
    let env : Env := ⟨.plain, ⟨id⟩, .lenient, none, 50000, fun _ => .ok ()⟩
    let sent : Val := .dict [("type", .str "task-sent"), ("uuid", .str "u1"), ("name", .str "app.add")]
    let received : Val := .dict [("type", .str "task-received"), ("uuid", .str "u1"), ("name", .str "app.add")]
    let succeeded : Val := .dict [("type", .str "task-succeeded"), ("uuid", .str "u1")]
    (deliverAll env [⟨sent, .ok ()⟩, ⟨received, .ok ()⟩, ⟨succeeded, .ok ()⟩] Monitor.init).sunk.map
      (fun ev => (ev.kind, lookup "task_name" ev.data)) = [(.task_succeeded, some (.str "<unknown:u1>"))] := by
  decide +kernel

end Z4jCelery.Events.Broker
