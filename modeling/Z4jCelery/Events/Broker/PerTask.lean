import Z4jCelery.Events.Broker.FieldShapes
import Z4jCelery.Events.Broker.NameRecovery
import Z4jCelery.Events.Mapper.Shape
/-!
# Tasks do not interfere

The monitor keeps one cache for the names of all tasks. As long as it has room for
them, what is sunk for a task depends on the events of this task alone: two runs
that agree on these sink the same for it, whatever else the broker sends and in
whatever messages, unless an element hides those behind it in its message
(`task_isolated`).
-/

namespace Z4jCelery.Events.Broker

open Py Z4jCelery.Core Events Mapper Lib

variable {env : Env}

/-! ## The events of a task -/

/-- The task that a handled element is about, as a key of the cache. -/
def task_key (env : Env) (ev : Val) : Option Val := (reached env ev).bind fun call => event_key call.2

def of_task (env : Env) (k : Val) (evs : List Val) : List Val := evs.filter fun ev => task_key env ev = some k

/-- What was sunk for a task. -/
def sunk_of (k : Val) (s : Monitor) : List Event := s.sunk.filter fun ev => ev.task_id.key? = some k

/-- The elements that the broker sent, in order. -/
def sent (ds : List Delivery) : List Val := ds.flatMap Delivery.events

/-- The cache has room for the names of all tasks. -/
def Fits (env : Env) (evs : List Val) : Prop := (evs.filterMap (task_key env)).dedup.length ≤ env.NAME_CACHE_MAX

instance (env : Env) (evs : List Val) : Decidable (Fits env evs) := inferInstanceAs (Decidable (_ ≤ _))

/-- `Event` keeps the task's id as it is. -/
def KeepsId (env : Env) (event : Body) : Prop :=
  (get event "uuid" (.str "")).mapStr env.event.text = get event "uuid" (.str "")

/-- `Event` keeps the ids of all tasks. -/
def Kept (env : Env) (evs : List Val) : Prop := ∀ event, .dict event ∈ evs → KeepsId env event

/-! ## What a handler sinks -/

theorem emit_shaped {event : Body} {build : Val → Except Exn Event} {kind : EventKind} {uuid : Val}
    (hbuild : ∀ name ev, build name = .ok ev → Shaped kind uuid ev) (s : Monitor) :
    (final (emit env event build s)).sunk = s.sunk ∨
      ∃ ev, Made env.event kind uuid ev ∧ (final (emit env event build s)).sunk = s.sunk ++ [ev] := by
  rcases @emit_sunk env event build s with he | ⟨name, -, built, ev, -, hb, hmade, he⟩
  · exact .inl he
  · exact .inr ⟨ev, ⟨built, hbuild name built hb, hmade⟩, he⟩

/-- Caching a name first sinks nothing. -/
theorem caching_shaped {event : Body} {m : MonitorM Unit} {kind : EventKind} {uuid : Val}
    (hm : ∀ s, (final (m s)).sunk = s.sunk ∨
      ∃ ev, Made env.event kind uuid ev ∧ (final (m s)).sunk = s.sunk ++ [ev])
    (s : Monitor) : (final ((do cache_name env event; m) s)).sunk = s.sunk ∨
      ∃ ev, Made env.event kind uuid ev ∧ (final ((do cache_name env event; m) s)).sunk = s.sunk ++ [ev] := by
  have hs : (final (cache_name env event s)).sunk = s.sunk := cache_name_silent event s
  cases hr : cache_name env event s with
  | error e s' =>
    rw [hr] at hs
    rw [bind_error hr]
    exact .inl hs
  | ok a s' =>
    rw [hr, final_ok] at hs
    rw [bind_ok hr, ← hs]
    exact hm s'

/-- A handler sinks nothing, or one event of its kind for the task. -/
theorem body_shaped (h : Handler) (event : Body) (s : Monitor) :
    (final (body env h event s)).sunk = s.sunk ∨
      ∃ ev, Made env.event h.kind (get event "uuid" (.str "")) ev ∧ (final (body env h event s)).sunk = s.sunk ++ [ev] := by
  cases h with
  | received => exact caching_shaped (emit_shaped fun _ _ => received_shaped) s
  | started => exact caching_shaped (emit_shaped fun _ _ => started_shaped) s
  | succeeded =>
    rw [body, on_succeeded]
    cases runtime_ms env.py (get event "runtime" .none) with
    | error e => exact .inl rfl
    | ok ms =>
      rw [ofOutcome_ok, pure_bind, silent_after (pop_name_silent event)]
      exact emit_shaped (fun _ _ => succeeded_shaped) s
  | failed =>
    rw [body, on_failed, silent_after (pop_name_silent event)]
    exact emit_shaped (fun _ _ => failed_shaped) s
  | retried => exact emit_shaped (fun _ _ => retried_shaped) s
  | revoked =>
    rw [body, on_revoked, silent_after (pop_name_silent event)]
    exact emit_shaped (fun _ _ => revoked_shaped) s

/-! ## A call for the task -/

/-- The monitors hold the same name for the task, and sank the same for it. -/
structure Agree (k : Val) (s t : Monitor) : Prop where
  name : s.name_cache.get? k = t.name_cache.get? k
  sunk : sunk_of k s = sunk_of k t

section Same
variable {k : Val} {s t : Monitor}

theorem Agree.refl (s : Monitor) : Agree k s s := ⟨rfl, rfl⟩

theorem Agree.trans {u : Monitor} (h : Agree k s t) (h' : Agree k t u) : Agree k s u :=
  ⟨h.name.trans h'.name, h.sunk.trans h'.sunk⟩

theorem Agree.symm (h : Agree k s t) : Agree k t s := ⟨h.name.symm, h.sunk.symm⟩

theorem agree_cached_name : Related (Agree k) (cached_name k) (cached_name k) := by
  intro s t h
  rw [RunsRelated, cached_name_apply, cached_name_apply, h.name]
  refine ⟨rfl, ?_⟩
  simp only [final_ok]
  split
  · exact ⟨by simpa [Monitor.hit] using h.name, h.sunk⟩
  · exact h

/-- A statement that first computes the key of the task. -/
theorem agree_key {α : Type} {v : Val} (hv : v.key? = some k) {m : Val → MonitorM α}
    (hm : Related (Agree k) (m k) (m k)) : Related (Agree k) (ofOutcome (key v) >>= m) (ofOutcome (key v) >>= m) := by
  rw [key, hv]
  exact hm

variable {event : Body} (hk : event_key event = some k)
include hk

theorem agree_resolve_name : Related (Agree k) (resolve_name event) (resolve_name event) := by
  unfold resolve_name
  simp only
  split
  · exact related_pure _
  · exact agree_key hk agree_cached_name

theorem agree_pop_name : Related (Agree k) (pop_name event) (pop_name event) :=
  agree_key hk (related_modify fun s t h => ⟨by simp [Monitor.pop, Dict.get?_erase_self], h.sunk⟩)

theorem agree_cache_name (hN : 0 < env.NAME_CACHE_MAX) : Related (Agree k) (cache_name env event) (cache_name env event) := by
  unfold cache_name
  simp only
  split
  · rename_i h
    exact agree_key ((event_key_of_truthy h.1).trans hk) (related_modify fun s t h' =>
      ⟨by simp [Monitor.cache, Lru.get?_store_self hN], h'.sunk⟩)
  · exact related_pure _

/-- The sink takes every event. -/
theorem agree_emit (hsink : ∀ i, env.sink i = .ok ()) (build : Val → Except Exn Event) :
    Related (Agree k) (emit env event build) (emit env event build) := by
  refine related_bind (agree_resolve_name hk) fun _ => related_bind (related_ofOutcome _) fun ev s t h => ?_
  rw [RunsRelated, sink, bind_ok (get_apply s), bind_ok (modify_apply _ s), bind_ok (get_apply t),
    bind_ok (modify_apply _ t), hsink, hsink]
  refine ⟨rfl, h.name, ?_⟩
  show sunk_of k _ = sunk_of k _
  have hsunk := h.sunk
  simp only [sunk_of, ofOutcome_ok, pure_apply, final_ok, List.filter_append] at hsunk ⊢
  rw [hsunk]

theorem agree_body (hN : 0 < env.NAME_CACHE_MAX) (hsink : ∀ i, env.sink i = .ok ()) (h : Handler) :
    Related (Agree k) (body env h event) (body env h event) := by
  cases h with
  | received | started => exact related_bind (agree_cache_name hk hN) fun _ => agree_emit hk hsink _
  | succeeded =>
    exact related_bind (related_ofOutcome _) fun _ => related_bind (agree_emit hk hsink _) fun _ => agree_pop_name hk
  | failed | revoked => exact related_bind (agree_emit hk hsink _) fun _ => agree_pop_name hk
  | retried => exact agree_emit hk hsink _

/-- Calls for the task keep monitors in agreement. -/
theorem agree_handle (hN : 0 < env.NAME_CACHE_MAX) (hsink : ∀ i, env.sink i = .ok ()) (h : Handler)
    (hst : Agree k s t) : Agree k (final (handle env h event s)) (final (handle env h event t)) := by
  have hbody := (agree_body hk hN hsink h s t hst).2
  rw [handle_apply, handle_apply]
  exact ⟨hbody.name, hbody.sunk⟩

end Same

/-! ## A call for another task -/

/-- The names held are those of the tasks in `K`, for which there is room. -/
structure Roomy (env : Env) (K : List Val) (s : Monitor) : Prop where
  inv : CacheInv env s
  keys : ∀ o ∈ s.history, o.key ∈ K
  room : K.dedup.length ≤ env.NAME_CACHE_MAX

variable {K : List Val} {s : Monitor}

theorem Roomy.name (h : Roomy env K s) {k : Val} (hk : k ∈ K) : s.name_cache.get? k = Lru.lastCached k s.history := by
  rw [h.inv.ok.cache]
  exact Lru.get?_eq_lastCached h.inv.ok.effective (Lru.othersSince_lt h.keys h.room hk)

theorem Roomy.handle (h : Roomy env K s) (handler : Handler) {event : Body}
    (hevent : ∀ k, event_key event = some k → k ∈ K) : Roomy env K (final (handle env handler event s)) := by
  obtain ⟨ops, hops, hkeys, -⟩ := @handle_keyed env handler event s
  refine ⟨handle_cacheInv handler event h.inv, fun o ho => ?_, h.room⟩
  rw [hops] at ho
  rcases List.mem_append.1 ho with ho | ho
  · exact hevent _ (hkeys o ho)
  · exact h.keys o ho

theorem sunk_of_other {k : Val} (handler : Handler) {event : Body} (hkept : KeepsId env event)
    (hne : event_key event ≠ some k) (s : Monitor) :
    sunk_of k (final (handle env handler event s)) = sunk_of k s := by
  rw [handle_apply, final_ok]
  rcases @body_shaped env handler event s with hsame | ⟨ev, hev, hsunk⟩
  · exact congrArg (List.filter _) hsame
  · have hother : ev.task_id.key? ≠ some k := by
      rw [hev.task_id, hkept]
      exact hne
    simp only [sunk_of, Monitor.record, hsunk, List.filter_append]
    simp [hother]

theorem agree_other (h : Roomy env K s) {k : Val} (hk : k ∈ K) (handler : Handler) {event : Body}
    (hkept : KeepsId env event) (hevent : ∀ k, event_key event = some k → k ∈ K) (hne : event_key event ≠ some k) :
    Agree k (final (handle env handler event s)) s := by
  obtain ⟨ops, hops, hkeys, -⟩ := @handle_keyed env handler event s
  refine ⟨?_, sunk_of_other handler hkept hne s⟩
  have hother : ∀ o ∈ ops, o.key ≠ k := by
    rintro o ho rfl
    exact hne (hkeys o ho)
  rw [(h.handle handler hevent).name hk, h.name hk, hops, Lru.lastCached_append hother]

/-! ## Runs -/

theorem handleAll_agree (hsink : ∀ i, env.sink i = .ok ()) {k : Val} (hk : k ∈ K) {evs : List Val} (hkept : Kept env evs)
    (hevs : ∀ ev ∈ evs, ∀ k, task_key env ev = some k → k ∈ K) {s t : Monitor} (hs : Roomy env K s) (hst : Agree k s t) :
    Agree k (handleAll env (evs.filterMap (reached env)) s)
      (handleAll env ((of_task env k evs).filterMap (reached env)) t) := by
  have hN : 0 < env.NAME_CACHE_MAX := Nat.lt_of_lt_of_le (List.length_pos_of_mem (List.mem_dedup.2 hk)) hs.room
  induction evs generalizing s t with
  | nil => exact hst
  | cons ev evs ih =>
    have ih' := @ih (fun event hev' => hkept event (List.mem_cons_of_mem _ hev'))
      fun ev' hev' => hevs ev' (List.mem_cons_of_mem _ hev')
    have hkey := hevs ev List.mem_cons_self
    rw [of_task, List.filter_cons]
    cases hr : reached env ev with
    | none =>
      have hnot : task_key env ev = none := by rw [task_key, hr]; rfl
      rw [List.filterMap_cons_none hr, hnot, if_neg (by simp)]
      exact ih' hs hst
    | some call =>
      obtain ⟨handler, event⟩ := call
      have htask : task_key env ev = event_key event := by rw [task_key, hr]; rfl
      rw [List.filterMap_cons_some hr, htask]
      rw [htask] at hkey
      by_cases hke : event_key event = some k
      · rw [if_pos (decide_eq_true hke), List.filterMap_cons_some hr]
        exact ih' (hs.handle handler hkey) (agree_handle hke hN hsink handler hst)
      · rw [if_neg (by simpa using hke)]
        have hid := hkept event ((reached_eq_some.1 hr).1 ▸ List.mem_cons_self)
        exact ih' (hs.handle handler hkey) ((agree_other hs hk handler hid hkey hke).trans hst)

/-- Nothing is sunk for a task without events. -/
theorem handleAll_none {k : Val} {evs : List Val} (hkept : Kept env evs) (hk : k ∉ evs.filterMap (task_key env)) (s : Monitor) :
    sunk_of k (handleAll env (evs.filterMap (reached env)) s) = sunk_of k s := by
  induction evs generalizing s with
  | nil => rfl
  | cons ev evs ih =>
    have ih' := ih fun event hev' => hkept event (List.mem_cons_of_mem _ hev')
    cases hr : reached env ev with
    | none =>
      have hnot : task_key env ev = none := by rw [task_key, hr]; rfl
      rw [List.filterMap_cons_none hnot] at hk
      rw [List.filterMap_cons_none hr]
      exact ih' hk s
    | some call =>
      have htask : task_key env ev = event_key call.2 := by rw [task_key, hr]; rfl
      have hne : event_key call.2 ≠ some k := fun he => hk (List.mem_filterMap.2 ⟨ev, List.mem_cons_self, htask.trans he⟩)
      have hlater : k ∉ evs.filterMap (task_key env) := fun hmem => by
        obtain ⟨ev', hev', hk'⟩ := List.mem_filterMap.1 hmem
        exact hk (List.mem_filterMap.2 ⟨ev', List.mem_cons_of_mem _ hev', hk'⟩)
      have hid := hkept call.2 ((reached_eq_some.1 hr).1 ▸ List.mem_cons_self)
      rw [List.filterMap_cons_some hr, handleAll, ih' hlater, sunk_of_other call.1 hid hne]

theorem roomy_init {evs : List Val} (hfits : Fits env evs) :
    Roomy env (evs.filterMap (task_key env)) Monitor.init := ⟨cacheInv_init, nofun, hfits⟩

/-- What is sunk for a task is what its own events alone sink. -/
theorem sunk_of_alone (hsink : ∀ i, env.sink i = .ok ()) {k : Val} {evs : List Val} (hfits : Fits env evs)
    (hkept : Kept env evs) : sunk_of k (monitor env evs) = sunk_of k (monitor env (of_task env k evs)) := by
  by_cases hk : k ∈ evs.filterMap (task_key env)
  · exact (handleAll_agree hsink hk hkept (fun ev hev k' hk' => List.mem_filterMap.2 ⟨ev, hev, hk'⟩) (roomy_init hfits)
      (.refl _)).sunk
  · have hnone : of_task env k evs = [] := by
      refine List.filter_eq_nil_iff.2 fun ev hev hke => hk (List.mem_filterMap.2 ⟨ev, hev, of_decide_eq_true hke⟩)
    rw [hnone]
    exact handleAll_none hkept hk Monitor.init

/-! ## What the broker sent -/

theorem dispatched_sublist (ds : List Delivery) : (dispatched env ds).Sublist (sent ds) := by
  induction ds with
  | nil => exact List.nil_sublist _
  | cons d ds ih =>
    rw [dispatched, sent, List.flatMap_cons, List.flatMap_cons]
    exact (List.takeWhile_sublist _).append ih

/-- Well-formed messages hide nothing. -/
theorem dispatched_wellFormed {ds : List Delivery} (h : ∀ d ∈ ds, WellFormed d) : dispatched env ds = sent ds := by
  induction ds with
  | nil => rfl
  | cons d ds ih =>
    have hall : (d.events.takeWhile fun ev => !raises env ev) = d.events := by
      rw [List.takeWhile_eq_self_iff]
      intro ev hev
      obtain ⟨event, rfl, type, ht⟩ := h d List.mem_cons_self ev hev
      simp [raises, ht]
    have ih' := ih fun d' hd' => h d' (List.mem_cons_of_mem _ hd')
    rw [dispatched, sent] at ih' ⊢
    rw [List.flatMap_cons, List.flatMap_cons, ih', hall]

theorem Fits.sublist {evs evs' : List Val} (hsub : evs'.Sublist evs) (h : Fits env evs) : Fits env evs' := by
  refine Nat.le_trans (List.Nodup.subperm (List.nodup_dedup _) fun k hk => ?_).length_le h
  exact List.mem_dedup.2 ((hsub.filterMap _).subset (List.mem_dedup.1 hk))

/-- In runs whose tasks all fit in the cache, and whose ids `Event` keeps, what is
sunk for a task depends on the events of this task alone, and their order: on those
that come in their messages before any element that raises, so in well-formed
messages on those that the broker sent. Other tasks, and how the events come in
messages, make no difference. -/
theorem task_isolated (hsink : ∀ i, env.sink i = .ok ()) {ds ds' : List Delivery} (hfits : Fits env (sent ds))
    (hfits' : Fits env (sent ds')) (hkept : Kept env (sent ds)) (hkept' : Kept env (sent ds')) (k : Val) :
    (of_task env k (dispatched env ds) = of_task env k (dispatched env ds') →
      sunk_of k (deliverAll env ds Monitor.init) = sunk_of k (deliverAll env ds' Monitor.init)) ∧
    ((∀ d ∈ ds, WellFormed d) → (∀ d ∈ ds', WellFormed d) → of_task env k (sent ds) = of_task env k (sent ds') →
      sunk_of k (deliverAll env ds Monitor.init) = sunk_of k (deliverAll env ds' Monitor.init)) := by
  have hsunk : ∀ ds, Fits env (sent ds) → Kept env (sent ds) → sunk_of k (deliverAll env ds Monitor.init) =
      sunk_of k (monitor env (of_task env k (dispatched env ds))) := by
    intro ds hfits hkept
    have hsub := @dispatched_sublist env ds
    have halone := sunk_of_alone (k := k) hsink (hfits.sublist hsub) fun event hev => hkept event (hsub.subset hev)
    exact (congrArg (List.filter _) (deliverAll_sunk ds)).trans halone
  have hfirst : of_task env k (dispatched env ds) = of_task env k (dispatched env ds') →
      sunk_of k (deliverAll env ds Monitor.init) = sunk_of k (deliverAll env ds' Monitor.init) := fun hsame => by
    rw [hsunk ds hfits hkept, hsunk ds' hfits' hkept', hsame]
  refine ⟨hfirst, fun hform hform' hsame => hfirst ?_⟩
  rw [dispatched_wellFormed hform, dispatched_wellFormed hform', hsame]

/-- Among the events of another task in one message, with a broken element behind
them, or alone. -/
theorem task_isolated_batch :
    let started (uuid name : String) : Val :=
      .dict [("type", .str "task-started"), ("uuid", .str uuid), ("name", .str name)]
    let retried (uuid : String) : Val := .dict [("type", .str "task-retried"), ("uuid", .str uuid)]
    let alone := deliverAll openMonitor [⟨started "a" "app.add", .ok ()⟩, ⟨retried "a", .ok ()⟩] Monitor.init
    let batch := deliverAll openMonitor
      [⟨.list [started "a" "app.add", started "b" "app.mul", retried "b", retried "a", .int 1], .ok ()⟩] Monitor.init
    (sunk_of (.str "a") alone).length = 2 ∧ sunk_of (.str "a") batch = sunk_of (.str "a") alone := by
  intro started retried alone batch
  have hkept : ∀ evs, Kept openMonitor evs := fun evs event _ => by
    rw [KeepsId]
    cases get event "uuid" (.str "") <;> rfl
  refine ⟨by decide +kernel, ?_⟩
  exact (task_isolated (fun _ => rfl) (by decide +kernel) (by decide +kernel) (hkept _) (hkept _) (.str "a")).1
    (by decide +kernel)

end Z4jCelery.Events.Broker
