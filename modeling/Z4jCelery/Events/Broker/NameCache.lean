import Z4jCelery.Events.Broker
import Z4jCelery.Py.Frame
/-!
# The name cache is a bounded LRU map

`CacheInv` says that the cache is the map its history makes, and that the
history agrees with the log of handler calls. `handle_cacheInv` is the step,
`handleAll_cacheInv` the run; the library's rules for such maps do the rest.
-/

namespace Z4jCelery.Events.Broker

open Py Z4jCelery.Core Events Mapper Lib

variable {env : Env}

/-! ## Names in the log -/

def Handler.caches : Handler → Bool
  | .received | .started => true
  | .succeeded | .failed | .retried | .revoked => false

/-- The handlers of terminal events forget the name at their end. -/
def Handler.terminal : Handler → Bool
  | .succeeded | .failed | .revoked => true
  | .received | .started | .retried => false

/-- The name that a call caches for `u`. -/
def named (u : String) (h : Handler) (event : Body) : Option Val :=
  let name := get event "name" .none
  if h.caches ∧ get event "uuid" .none = .str u ∧ u ≠ "" ∧ name.truthy then some name else none

/-- The name in the latest call that cached one for `u`. -/
def latestName (u : String) : List Entry → Option Val
  | [] => none
  | .handled h event _ :: log => (named u h event).or (latestName u log)
  | .acked :: log => latestName u log

/-- The name held for `u` after a call, given the one before: a call that names
`u` sets it, a terminal one that runs to its end forgets it. -/
def after (u : String) (h : Handler) (event : Body) (completed : Bool) (before : Option Val) : Option Val :=
  match named u h event with
  | some name => some name
  | none => if h.terminal ∧ completed ∧ get event "uuid" (.str "") = .str u then none else before

/-- The name in the latest call that cached one for `u`, unless a terminal
handler for `u` ran to its end since. -/
def lastNamed (u : String) : List Entry → Option Val
  | [] => none
  | .handled h event completed :: log => after u h event completed (lastNamed u log)
  | .acked :: log => lastNamed u log

theorem lastNamed_latest {u : String} {log : List Entry} {name : Val} (h : lastNamed u log = some name) :
    latestName u log = some name := by
  induction log with
  | nil => cases h
  | cons e log ih =>
    cases e with
    | acked => exact ih h
    | handled handler event completed =>
      rw [lastNamed, after] at h
      rw [latestName]
      cases hn : named u handler event with
      | some name' => rw [hn] at h; exact h
      | none =>
        rw [hn] at h
        simp only at h
        split at h
        · cases h
        · exact ih h

/-! ## One call -/

/-- The cache is the map that its history makes. -/
structure CacheOk (env : Env) (s : Monitor) : Prop where
  cache : s.name_cache = Lru.state env.NAME_CACHE_MAX s.history
  effective : Lru.Effective env.NAME_CACHE_MAX s.history

theorem CacheOk.cache_ok {s : Monitor} (h : CacheOk env s) (k name : Val) :
    CacheOk env (s.cache env.NAME_CACHE_MAX k name) :=
  ⟨by rw [Monitor.cache, h.cache]; rfl, h.effective⟩

theorem CacheOk.hit_ok {s : Monitor} (h : CacheOk env s) {k : Val} (hk : k ∈ s.name_cache.keys) :
    CacheOk env (s.hit k) :=
  ⟨by rw [Monitor.hit, h.cache]; rfl, h.cache ▸ hk, h.effective⟩

theorem CacheOk.pop_ok {s : Monitor} (h : CacheOk env s) (k : Val) : CacheOk env (s.pop k) :=
  ⟨by rw [Monitor.pop, h.cache]; rfl, h.effective⟩

/-- Only hits are added to the history, and nothing to the log. -/
def touching (env : Env) : Frame Monitor where
  rel s s' := (CacheOk env s → CacheOk env s') ∧ s'.log = s.log ∧
    ∀ u, Lru.lastCached u s'.history = Lru.lastCached u s.history
  refl _ := ⟨id, rfl, fun _ => rfl⟩
  trans h h' := ⟨h'.1 ∘ h.1, h'.2.1.trans h.2.1, fun u => (h'.2.2 u).trans (h.2.2 u)⟩

theorem cached_name_apply (k : Val) (s : Monitor) :
    cached_name k s = .ok ((s.name_cache.get? k).getD .none)
      (if (s.name_cache.get? k).getD .none ≠ .none then s.hit k else s) := by
  rw [cached_name, bind_ok (get_apply s)]
  by_cases h : (s.name_cache.get? k).getD .none ≠ .none
  · simp only [if_pos h]; rfl
  · simp only [if_neg h]; rfl

theorem cached_name_touches (k : Val) : Keeps (touching env) (cached_name k) := by
  intro s
  rw [cached_name_apply, final_ok]
  split
  · rename_i hk
    refine ⟨fun hs => hs.hit_ok ?_, rfl, fun _ => rfl⟩
    rw [← Dict.get?_isSome]
    cases hg : s.name_cache.get? k with
    | none => rw [hg] at hk; exact absurd rfl hk
    | some v => rfl
  · exact (touching env).refl s

theorem resolve_name_touches (event : Body) : Keeps (touching env) (resolve_name event) := by
  unfold resolve_name
  simp only
  split
  · exact keeps_pure _
  · exact keeps_bind (keeps_ofOutcome _) cached_name_touches

theorem sink_touches (ev : Event) : Keeps (touching env) (sink env ev) := by
  intro s
  rw [sink, bind_ok (get_apply s), bind_ok (modify_apply _ s), ofOutcome_apply]
  cases env.sink s.sunk.length <;> exact ⟨fun h => ⟨h.cache, h.effective⟩, rfl, fun _ => rfl⟩

theorem emit_touches (event : Body) (build : Val → Except Exn Event) : Keeps (touching env) (emit env event build) :=
  keeps_bind (resolve_name_touches event) fun _ => keeps_bind (keeps_ofOutcome _) sink_touches

/-- From `s` to `s'` the cache stays sound, the log as it is, and the name held
for `u` becomes `f u` of what it was. -/
structure Advances (env : Env) (f : String → Option Val → Option Val) (s s' : Monitor) : Prop where
  ok : CacheOk env s → CacheOk env s'
  log : s'.log = s.log
  names : ∀ u : String, Lru.lastCached (.str u) s'.history = f u (Lru.lastCached (.str u) s.history)

theorem key_eq_str_iff {v k : Val} (h : v.key? = some k) (u : String) : k = .str u ↔ v = .str u := by
  rw [← Val.key?_eq_str (v := v), h, Option.some.injEq]

theorem cache_name_advances (event : Body) {h : Handler} (hh : h.caches = true) (s : Monitor) :
    Advances env (fun u before => (named u h event).or before) s (final (cache_name env event s)) := by
  rw [cache_name]
  by_cases hc : (get event "uuid" .none).truthy ∧ (get event "name" .none).truthy
  · rw [if_pos hc]
    cases hk : (get event "uuid" .none).key? with
    | none =>
      -- an unhashable uuid raises before anything is stored
      rw [key, hk]
      refine ⟨id, rfl, fun u => ?_⟩
      have hu : get event "uuid" .none ≠ .str u := by
        intro hu
        rw [hu, Val.key?_str] at hk
        cases hk
      rw [named, if_neg (fun h => hu h.2.1), Option.none_or]
      rfl
    | some k =>
      rw [key, hk]
      refine ⟨fun hs => hs.cache_ok k _, rfl, fun u => ?_⟩
      show (if k = .str u then some (get event "name" .none) else Lru.lastCached (.str u) s.history) = _
      by_cases hu : get event "uuid" .none = .str u
      · have hne : u ≠ "" := by
          have := hc.1
          rw [hu, truthy_str, decide_eq_true_eq] at this
          exact this
        rw [if_pos ((key_eq_str_iff hk u).2 hu), named, if_pos ⟨hh, hu, hne, hc.2⟩, Option.some_or]
      · rw [if_neg (mt (key_eq_str_iff hk u).1 hu), named, if_neg (fun h => hu h.2.1), Option.none_or]
  · rw [if_neg hc]
    refine ⟨id, rfl, fun u => ?_⟩
    have hn : named u h event = none := by
      rw [named, if_neg]
      rintro ⟨-, hu, hne, hname⟩
      exact hc ⟨by rw [hu, truthy_str, decide_eq_true_eq]; exact hne, hname⟩
    rw [hn, Option.none_or]
    rfl

/-- `pop_name` forgets the name of its uuid, or raises and does nothing. -/
theorem pop_name_advances (event : Body) (s : Monitor) :
    (∃ s', pop_name event s = .ok () s' ∧
      Advances env (fun u before => if get event "uuid" (.str "") = .str u then none else before) s s') ∨
      ∃ e, pop_name event s = .error e s := by
  rw [pop_name]
  cases hk : (get event "uuid" (.str "")).key? with
  | none =>
    right
    rw [key, hk]
    exact ⟨_, rfl⟩
  | some k =>
    left
    rw [key, hk]
    refine ⟨s.pop k, rfl, fun hs => hs.pop_ok k, rfl, fun u => ?_⟩
    show (if k = .str u then none else Lru.lastCached (.str u) s.history) = _
    by_cases hu : get event "uuid" (.str "") = .str u
    · rw [if_pos ((key_eq_str_iff hk u).2 hu), if_pos hu]
    · rw [if_neg (mt (key_eq_str_iff hk u).1 hu), if_neg hu]

theorem Advances.touch {f : String → Option Val → Option Val} {s s' s'' : Monitor} (h : Advances env f s s')
    (ht : (touching env).rel s' s'') : Advances env f s s'' :=
  ⟨ht.1 ∘ h.ok, ht.2.1.trans h.log, fun u => (ht.2.2 _).trans (h.names u)⟩

theorem Advances.of_touch {s s' : Monitor} (h : (touching env).rel s s') : Advances env (fun _ before => before) s s' :=
  ⟨h.1, h.2.1, fun _ => h.2.2 _⟩

theorem Advances.after_touch {f : String → Option Val → Option Val} {s s' s'' : Monitor}
    (ht : (touching env).rel s s') (h : Advances env f s' s'') : Advances env f s s'' :=
  ⟨h.ok ∘ ht.1, h.log.trans ht.2.1, fun u => by rw [h.names u, ht.2.2]⟩

theorem Advances.congr {f g : String → Option Val → Option Val} {s s' : Monitor} (h : Advances env f s s')
    (hfg : ∀ u before, f u before = g u before) : Advances env g s s' :=
  ⟨h.ok, h.log, fun u => (h.names u).trans (hfg u _)⟩

/-! ## The handlers -/

/-- The statement ran to its end. -/
def completes {α : Type} (r : EStateM.Result Exn Monitor α) : Bool :=
  match r with
  | .ok _ _ => true
  | .error _ _ => false

/-- A handler that caches first and then only touches. -/
theorem caching_advances {h : Handler} (hh : h.caches = true) (event : Body) {m : MonitorM Unit}
    (hm : Keeps (touching env) m) (s : Monitor) :
    let r := (do cache_name env event; m) s
    Advances env (fun u => after u h event (completes r)) s (final r) := by
  have hc := @cache_name_advances env event h hh s
  have hnt : h.terminal = false := by cases h <;> first | rfl | cases hh
  have hf : ∀ c u before, (named u h event).or before = after u h event c before := by
    intro c u before
    rw [after, hnt]
    cases named u h event <;> simp
  intro r
  refine Advances.congr ?_ (hf _)
  cases hs : cache_name env event s with
  | error e s' =>
    rw [hs] at hc
    rw [show r = .error e s' from bind_error hs]
    exact hc
  | ok a s' =>
    rw [hs] at hc
    rw [show r = m s' from bind_ok hs]
    exact hc.touch (hm s')

/-- A handler that only touches, and pops last. -/
theorem terminal_advances {h : Handler} (hh : h.terminal = true) (event : Body) {m : MonitorM Unit}
    (hm : Keeps (touching env) m) (s : Monitor) :
    let r := (do m; pop_name event) s
    Advances env (fun u => after u h event (completes r)) s (final r) := by
  have hnamed : ∀ u, named u h event = none := by
    intro u
    rw [named, if_neg]
    rintro ⟨hc, -⟩
    cases h <;> simp_all [Handler.caches, Handler.terminal]
  have htouch := hm s
  intro r
  -- a handler that raises leaves its name in the cache
  have raised : ∀ e s', r = .error e s' → (touching env).rel s s' →
      Advances env (fun u => after u h event (completes r)) s (final r) := by
    intro e s' hr ht
    rw [hr]
    refine (Advances.of_touch ht).congr fun u before => ?_
    simp [after, hnamed, completes]
  cases hs : m s with
  | error e s' =>
    rw [hs] at htouch
    exact raised e s' (bind_error hs) htouch
  | ok a s' =>
    rw [hs] at htouch
    have hr : r = pop_name event s' := bind_ok hs
    rcases @pop_name_advances env event s' with ⟨s'', hpop, hadv⟩ | ⟨e, hpop⟩
    · rw [hr, hpop]
      refine (hadv.after_touch htouch).congr fun u before => ?_
      simp [after, hnamed, completes, hh]
    · exact raised e s' (hr.trans hpop) htouch

theorem body_advances (h : Handler) (event : Body) (s : Monitor) :
    Advances env (fun u => after u h event (completes (body env h event s))) s (final (body env h event s)) := by
  cases h with
  | received => exact caching_advances rfl event (emit_touches event _) s
  | started => exact caching_advances rfl event (emit_touches event _) s
  | retried =>
    refine (Advances.of_touch (emit_touches event _ s)).congr fun u before => ?_
    simp [after, named, Handler.caches, Handler.terminal]
  | succeeded =>
    have hb : body env .succeeded event = (do
        (do
          let runtime_ms ← ofOutcome (runtime_ms env.py (get event "runtime" .none))
          emit env event fun name => build_task_succeeded_event env.py env.redaction (get event "uuid" (.str ""))
            (.val name) (get event "result" .none) runtime_ms (get event "hostname" .none) .none)
        pop_name event) := (bind_assoc _ _ _).symm
    rw [hb]
    exact terminal_advances rfl event (keeps_bind (keeps_ofOutcome _) fun _ => emit_touches event _) s
  | failed => exact terminal_advances rfl event (emit_touches event _) s
  | revoked => exact terminal_advances rfl event (emit_touches event _) s

/-! ## Runs -/

/-- The cache is sound, and holds the names that the log says. -/
structure CacheInv (env : Env) (s : Monitor) : Prop where
  ok : CacheOk env s
  names : ∀ u : String, Lru.lastCached (.str u) s.history = lastNamed u s.log

theorem cacheInv_init : CacheInv env Monitor.init := ⟨⟨rfl, trivial⟩, fun _ => rfl⟩

/-- A handler call returns, and leaves what its body left, logged. -/
theorem handle_apply (h : Handler) (event : Body) (s : Monitor) :
    handle env h event s =
      .ok () ((final (body env h event s)).record (.handled h event (completes (body env h event s)))) := by
  rw [handle]
  cases hb : body env h event s with
  | ok a s' =>
    have hok : (do body env h event; return true : MonitorM Bool) s = .ok true s' := bind_ok hb
    rw [bind_ok (tryExcept_ok hok _)]
    rfl
  | error e s' =>
    have herr : (do body env h event; return true : MonitorM Bool) s = .error e s' := bind_error hb
    rw [bind_ok ((tryExcept_error herr _).trans (pure_apply _ _))]
    rfl

theorem handle_cacheInv (h : Handler) (event : Body) {s : Monitor} (hi : CacheInv env s) :
    CacheInv env (final (handle env h event s)) := by
  have hadv := @body_advances env h event s
  rw [handle_apply, final_ok]
  refine ⟨⟨(hadv.ok hi.ok).cache, (hadv.ok hi.ok).effective⟩, fun u => ?_⟩
  show Lru.lastCached (.str u) (final (body env h event s)).history = after u h event _ (lastNamed u _)
  rw [hadv.names u, hadv.log, hi.names u]

theorem handleAll_cacheInv (calls : List (Handler × Body)) {s : Monitor} (hi : CacheInv env s) :
    CacheInv env (handleAll env calls s) := by
  induction calls generalizing s with
  | nil => exact hi
  | cons call calls ih => exact ih (handle_cacheInv call.1 call.2 hi)

/-- The name that a name-less event for `u` resolves to, when the cache is
sound: the one held for `u`, if it is still there. -/
theorem resolve_nameless {s : Monitor} {event : Body} {u : String} (hu : get event "uuid" (.str "") = .str u)
    (hn : (get event "name" .none).truthy = false) :
    ∃ s', resolve_name event s = .ok ((s.name_cache.get? (.str u)).getD .none) s' := by
  rw [resolve_name, hn, if_neg Bool.false_ne_true, hu, key, Val.key?_str]
  exact ⟨_, cached_name_apply (.str u) s⟩

/-- After any sequence of handler calls the cache holds at most `N` names; a
name-less event resolves to nothing or to the latest name of its uuid; and it
resolves to that name unless a terminal handler ran to its end since, or `N`
other uuids were stored or hit. -/
theorem name_cache_is_lru (env : Env) (calls : List (Handler × Body)) :
    (handleAll env calls Monitor.init).name_cache.length ≤ env.NAME_CACHE_MAX ∧
    ∀ (u : String) (event : Body), get event "uuid" (.str "") = .str u → (get event "name" .none).truthy = false →
      ∃ r s', resolve_name event (handleAll env calls Monitor.init) = .ok r s' ∧
        (r = .none ∨ latestName u (handleAll env calls Monitor.init).log = some r) ∧
        ∀ name, lastNamed u (handleAll env calls Monitor.init).log = some name →
          (Lru.othersSince (.str u) (handleAll env calls Monitor.init).history).dedup.length < env.NAME_CACHE_MAX →
          r = name := by
  have hi := @handleAll_cacheInv env calls _ cacheInv_init
  generalize handleAll env calls Monitor.init = s at hi ⊢
  refine ⟨by rw [hi.ok.cache]; exact Lru.length_state _ _, fun u event hu hn => ?_⟩
  obtain ⟨s', hs'⟩ := resolve_nameless (s := s) hu hn
  refine ⟨_, s', hs', ?_, fun name hname hothers => ?_⟩
  · cases hg : s.name_cache.get? (.str u) with
    | none => exact .inl rfl
    | some name =>
      rw [hi.ok.cache] at hg
      exact .inr (lastNamed_latest ((hi.names u).symm.trans (Lru.get?_sound hg)))
  · have hcached := (hi.names u).trans hname
    rw [hi.ok.cache, Lru.get?_retained hi.ok.effective hcached hothers, Option.getD_some]

end Z4jCelery.Events.Broker
