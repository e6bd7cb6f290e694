import Z4jCelery.Engine.Workers.Runs
import Mathlib.Data.Option.Basic
/-!
# What the worker details depend on

Two runs whose replies agree on what the adapter means to send: the allowed
keys of a configuration, and what redaction leaves of the arguments of a
running task. The configurations are filtered; the running tasks are sent as
they came.
-/

namespace Z4jCelery.Engine.Workers

open Py Z4jCelery.Core Lib

/-! ## Equal payloads -/

/-- Equal values; the items of a dictionary in any order. -/
def Same (v v' : Val) : Prop :=
  v = v' ∨ ∃ kvs kvs', v = .dict kvs ∧ v' = .dict kvs' ∧ ∀ k, lookup k kvs = lookup k kvs'

def SameSections (s s' : List (String × Val)) : Prop := ∀ name, Option.Rel Same (lookup name s) (lookup name s')

def SameDetails (r r' : Details) : Prop := ∀ worker, Option.Rel SameSections (lookup worker r) (lookup worker r')

theorem Same.refl (v : Val) : Same v v := .inl rfl

theorem sameDetails_nil : SameDetails [] [] := fun _ => .none

/-- One section of one worker. -/
def section_of (r : Details) (worker name : String) : Option Val := (lookup worker r).bind (lookup name)

theorem SameDetails.section_of {r r' : Details} (h : SameDetails r r') (worker name : String) :
    Option.Rel Same (section_of r worker name) (section_of r' worker name) := by
  have hw := h worker
  rw [Workers.section_of, Workers.section_of]
  generalize lookup worker r = s at hw ⊢
  generalize lookup worker r' = s' at hw ⊢
  cases hw with
  | some hs => exact hs name
  | none => exact .none

theorem SameDetails.eq_nil_iff {r r' : Details} (h : SameDetails r r') : r = [] ↔ r' = [] := by
  cases r with
  | nil =>
    cases r' with
    | nil => exact Iff.rfl
    | cons kv r' =>
      have hw := h kv.1
      rw [lookup_cons, if_pos rfl] at hw
      cases hw
  | cons kv r =>
    cases r' with
    | nil =>
      have hw := h kv.1
      rw [lookup_cons, if_pos rfl] at hw
      cases hw
    | cons kv' r' => simp

/-! ## Merging a reply -/

theorem lookup_merge (c : Inspect) {items : List (String × Val)} (h : (items.map Prod.fst).Nodup) (r : Details)
    (worker : String) :
    lookup worker (merge c items r) = match lookup worker items with
      | some v => some (Dict.upsertItems c.section_name (shown c v) ((lookup worker r).getD []))
      | none => lookup worker r := by
  refine (lookup_foldl_upsert (fun sections v => Dict.upsertItems c.section_name (shown c v) (sections.getD []))
    worker h r).trans ?_
  cases lookup worker items <;> rfl

theorem reply_nodup {ins : Inspector} {c : Inspect} {items : List (String × Val)} (h : reply ins c = .ok items) :
    (items.map Prod.fst).Nodup := by
  rw [reply] at h
  cases hr : ins c with
  | error e => rw [hr] at h; cases h
  | ok r =>
    rw [hr] at h
    cases r with
    | nothing => cases h; exact List.nodup_nil
    | workers d => cases h; exact d.nodup
    | other => cases h

theorem section_of_merge (c : Inspect) {items : List (String × Val)} (h : (items.map Prod.fst).Nodup) (r : Details)
    (worker name : String) :
    section_of (merge c items r) worker name =
      if c.section_name = name then ((lookup worker items).map (shown c)).or (section_of r worker name)
      else section_of r worker name := by
  rw [section_of, lookup_merge c h, section_of]
  cases lookup worker items with
  | none => simp
  | some v =>
    simp only [Option.bind_some, lookup_upsertItems]
    split
    · rfl
    · cases lookup worker r <;> rfl

/-- Replies that show the same of every worker. -/
def SameShown (c : Inspect) (items items' : List (String × Val)) : Prop :=
  ∀ worker, Option.Rel (fun v v' => Same (shown c v) (shown c v')) (lookup worker items) (lookup worker items')

theorem merge_same {c : Inspect} {items items' : List (String × Val)} {r r' : Details}
    (hn : (items.map Prod.fst).Nodup) (hn' : (items'.map Prod.fst).Nodup) (h : SameShown c items items')
    (hr : SameDetails r r') : SameDetails (merge c items r) (merge c items' r') := by
  intro worker
  rw [lookup_merge c hn, lookup_merge c hn']
  have hw := h worker
  generalize lookup worker items = x at hw ⊢
  generalize lookup worker items' = x' at hw ⊢
  cases hw with
  | none => exact hr worker
  | some hv =>
    refine .some fun name => ?_
    rw [lookup_upsertItems, lookup_upsertItems]
    split
    · exact .some hv
    · have hs := hr worker
      generalize lookup worker r = s at hs ⊢
      generalize lookup worker r' = s' at hs ⊢
      cases hs with
      | none => exact .none
      | some hs => exact hs name

/-! ## Replies that agree -/

/-- `cfg.get(key)`, of a configuration that is a dictionary. -/
def conf_key (cfg : Val) (key : String) : Option Val := cfg.dict?.bind (lookup key)

/-- What redaction leaves of a running task. -/
def task_view (redaction : RedactionEngine) : Val → Val
  | .dict kvs => .dict (kvs.map fun kv =>
      (kv.1, if kv.1 = "args" ∨ kv.1 = "kwargs" then redaction.scrub kv.2 else kv.2))
  | v => v

def active_view (redaction : RedactionEngine) : Val → Val
  | .list tasks => .list (tasks.map (task_view redaction))
  | v => v

/-- The values agree on what the adapter means to send of them. -/
def Agree (redaction : RedactionEngine) (c : Inspect) (v v' : Val) : Prop :=
  match c with
  | .conf => ∀ key ∈ CONF_ALLOWLIST, conf_key v key = conf_key v' key
  | .active => active_view redaction v = active_view redaction v'
  | .stats | .active_queues | .registered => Same v v'

/-- Both replies fail, or they are about the same workers with values related
by `R`. -/
def RepliesRel (R : Val → Val → Prop) : Except Exn (List (String × Val)) → Except Exn (List (String × Val)) → Prop
  | .error _, .error _ => True
  | .ok items, .ok items' => ∀ worker, Option.Rel R (lookup worker items) (lookup worker items')
  | _, _ => False

/-- Neither run gets an inspector, or their replies agree. -/
def AgreeRuns (redaction : RedactionEngine) : Except Exn Inspector → Except Exn Inspector → Prop
  | .error _, .error _ => True
  | .ok ins, .ok ins' => ∀ c, RepliesRel (Agree redaction c) (reply ins c) (reply ins' c)
  | _, _ => False

/-- A run that gets to the running tasks gets the same ones. -/
def SameActive : Except Exn Inspector → Except Exn Inspector → Prop
  | .ok ins, .ok ins' =>
    (∃ stats, reply ins .stats = .ok stats) → RepliesRel Same (reply ins .active) (reply ins' .active)
  | _, _ => True

theorem lookup_redact_worker_conf (cfg : Val) :
    ∃ kvs, redact_worker_conf cfg = .dict kvs ∧
      ∀ key, lookup key kvs = if key ∈ CONF_ALLOWLIST then conf_key cfg key else none := by
  cases cfg with
  | dict kvs =>
    refine ⟨_, rfl, fun key => ?_⟩
    rw [lookup_filter (fun key => decide (key ∈ CONF_ALLOWLIST))]
    simp [conf_key, Val.dict?]
  | _ => exact ⟨[], rfl, fun key => by simp [conf_key, Val.dict?]⟩

/-- Only the allowed keys of a configuration are stored. -/
theorem redact_worker_conf_same {redaction : RedactionEngine} {v v' : Val} (h : Agree redaction .conf v v') :
    Same (redact_worker_conf v) (redact_worker_conf v') := by
  obtain ⟨kvs, hv, hl⟩ := lookup_redact_worker_conf v
  obtain ⟨kvs', hv', hl'⟩ := lookup_redact_worker_conf v'
  refine .inr ⟨kvs, kvs', hv, hv', fun key => ?_⟩
  rw [hl, hl']
  split
  · exact h key ‹_›
  · rfl

/-- Values that agree are shown the same, but for the running tasks. -/
theorem shown_same {redaction : RedactionEngine} {c : Inspect} (hc : c ≠ .active) {v v' : Val}
    (h : Agree redaction c v v') : Same (shown c v) (shown c v') := by
  cases c with
  | conf => exact redact_worker_conf_same h
  | active => exact absurd rfl hc
  | stats | active_queues | registered => exact h

theorem RepliesRel.mono {R S : Val → Val → Prop} (hRS : ∀ v v', R v v' → S v v')
    {x x' : Except Exn (List (String × Val))} (h : RepliesRel R x x') : RepliesRel S x x' := by
  cases x with
  | error e => cases x' <;> exact h
  | ok items =>
    cases x' with
    | error e => exact h
    | ok items' =>
      intro worker
      have hw := h worker
      generalize lookup worker items = v at hw ⊢
      generalize lookup worker items' = v' at hw ⊢
      cases hw with
      | none => exact .none
      | some hv => exact .some (hRS _ _ hv)

/-! ## Two runs of the calls -/

theorem gather_same {redaction : RedactionEngine} {ins ins' : Inspector}
    (h : ∀ c, RepliesRel (Agree redaction c) (reply ins c) (reply ins' c)) {cs : List Inspect}
    (hactive : .active ∈ cs → RepliesRel Same (reply ins .active) (reply ins' .active)) {r r' : Details}
    (hr : SameDetails r r') : SameDetails (gather ins cs r) (gather ins' cs r') := by
  induction cs generalizing r r' with
  | nil => exact hr
  | cons c cs ih =>
    -- the running tasks are the only section that agreement does not settle
    have hc : RepliesRel (fun v v' => Same (shown c v) (shown c v')) (reply ins c) (reply ins' c) := by
      by_cases he : c = .active
      · subst he
        exact hactive List.mem_cons_self
      · exact (h c).mono fun v v' => shown_same he
    rw [gather, gather]
    cases hi : reply ins c with
    | error e =>
      cases hi' : reply ins' c with
      | error e' => exact hr
      | ok items' => rw [hi, hi'] at hc; exact hc.elim
    | ok items =>
      cases hi' : reply ins' c with
      | error e' => rw [hi, hi'] at hc; exact hc.elim
      | ok items' =>
        rw [hi, hi'] at hc
        exact ih (fun hmem => hactive (List.mem_cons_of_mem _ hmem))
          (merge_same (reply_nodup hi) (reply_nodup hi') hc hr)

theorem gather_ok {ins : Inspector} {c : Inspect} {items : List (String × Val)} (h : reply ins c = .ok items)
    (cs : List Inspect) (r : Details) : gather ins (c :: cs) r = gather ins cs (merge c items r) := by rw [gather, h]

/-- A section is what its own call stored. -/
theorem section_of_gather (ins : Inspector) {cs : List Inspect} {name : String}
    (h : ∀ c ∈ cs, c.section_name ≠ name) (r : Details) (worker : String) :
    section_of (gather ins cs r) worker name = section_of r worker name := by
  induction cs generalizing r with
  | nil => rfl
  | cons c cs ih =>
    rw [gather]
    cases hi : reply ins c with
    | error e => rfl
    | ok items =>
      simp only
      rw [ih fun c hc => h c (List.mem_cons_of_mem _ hc), section_of_merge c (reply_nodup hi),
        if_neg (h c List.mem_cons_self)]

theorem section_of_active {ins : Inspector} {stats active : List (String × Val)} (hs : reply ins .stats = .ok stats)
    (ha : reply ins .active = .ok active) (worker : String) :
    section_of (gather ins calls []) worker "active" = lookup worker active := by
  rw [calls, gather_ok hs, gather_ok ha, section_of_gather ins (by decide), section_of_merge .active (reply_nodup ha),
    if_pos (by decide), section_of_merge .stats (reply_nodup hs), if_neg (by decide)]
  have hid : shown .active = id := rfl
  simp [hid, section_of]

/-- Of two runs that agree, the details are the same exactly when the running
tasks are, where they are read at all. -/
theorem gathered_same_iff {redaction : RedactionEngine} {x x' : Except Exn Inspector} (h : AgreeRuns redaction x x') :
    SameDetails (gathered x calls) (gathered x' calls) ↔ SameActive x x' := by
  cases x with
  | error e =>
    cases x' with
    | ok ins' => exact h.elim
    | error e' => exact ⟨fun _ => trivial, fun _ => sameDetails_nil⟩
  | ok ins =>
    cases x' with
    | error e' => exact h.elim
    | ok ins' =>
      have hstats := h .stats
      constructor
      · rintro hsame ⟨stats, hs⟩
        have hactive := h .active
        cases hs' : reply ins' .stats with
        | error e => rw [hs, hs'] at hstats; exact hstats.elim
        | ok stats' =>
          cases ha : reply ins .active with
          | error e =>
            cases ha' : reply ins' .active with
            | error e' => trivial
            | ok active' => rw [ha, ha'] at hactive; exact hactive.elim
          | ok active =>
            cases ha' : reply ins' .active with
            | error e' => rw [ha, ha'] at hactive; exact hactive.elim
            | ok active' =>
              intro worker
              rw [← section_of_active hs ha, ← section_of_active hs' ha']
              exact hsame.section_of worker "active"
      · intro hactive
        cases hs : reply ins .stats with
        | ok stats => exact gather_same h (fun _ => hactive ⟨stats, hs⟩) sameDetails_nil
        | error e =>
          cases hs' : reply ins' .stats with
          | ok stats' => rw [hs, hs'] at hstats; exact hstats.elim
          | error e' =>
            rw [gathered, gathered, calls, gather, gather, hs, hs']
            exact sameDetails_nil

/-- The fallback asks for the statistics only. -/
theorem gathered_stats_same {redaction : RedactionEngine} {x x' : Except Exn Inspector}
    (h : AgreeRuns redaction x x') : SameDetails (gathered x [.stats]) (gathered x' [.stats]) := by
  cases x with
  | error e =>
    cases x' with
    | error e' => exact sameDetails_nil
    | ok ins' => exact h.elim
  | ok ins =>
    cases x' with
    | error e' => exact h.elim
    | ok ins' => exact gather_same h (fun hmem => by simp at hmem) sameDetails_nil

/-! ## Two runs of the heartbeat -/

/-- What each of a run's heartbeats returns. -/
def heartbeats : List (App × Rat) → Adapter → List (Except Exn Health)
  | [], _ => []
  | (app, now) :: beats, a => outcome (get_health app now a) :: heartbeats beats (final (get_health app now a))

/-- Two heartbeats that send the same details. -/
def SameSent (x x' : Except Exn Health) : Prop :=
  ∃ health health', x = .ok health ∧ x' = .ok health' ∧
    Option.Rel SameDetails health.worker_details health'.worker_details

/-- The same heartbeats, of two applications. -/
abbrev Beats := List ((App × App) × Rat)

def left (beats : Beats) : List (App × Rat) := beats.map fun b => (b.1.1, b.2)

def right (beats : Beats) : List (App × Rat) := beats.map fun b => (b.1.2, b.2)

/-- `P` holds of the inspectors of each refresh. -/
def EachRefresh (P : Except Exn Inspector → Except Exn Inspector → Prop) (hostname : Option String) : Beats → Rat → Prop
  | [], _ => True
  | ((app, app'), now) :: beats, last =>
    if now - last > 60 then
      P (inspector app (destination hostname)) (inspector app' (destination hostname)) ∧
        EachRefresh P hostname beats now
    else EachRefresh P hostname beats last

/-- An adapter that knows its own node is told of the same running tasks. -/
def SameActiveOf (hostname : Option String) (x x' : Except Exn Inspector) : Prop :=
  (destination hostname).isSome → SameActive x x'

theorem sent_same_iff {a a' : Adapter} :
    Option.Rel SameDetails (sent a) (sent a') ↔ SameDetails a.cached_worker_stats a'.cached_worker_stats := by
  rw [sent, sent]
  by_cases h : a.cached_worker_stats = []
  · rw [if_neg (not_not.2 h), h]
    constructor
    · intro hrel
      split at hrel
      · cases hrel
      · rename_i h'
        rw [not_not.1 h']
        exact sameDetails_nil
    · intro hsame
      rw [if_neg (not_not.2 (hsame.eq_nil_iff.1 rfl))]
      exact .none
  · rw [if_pos h]
    constructor
    · intro hrel
      split at hrel
      · cases hrel
        assumption
      · cases hrel
    · intro hsame
      rw [if_pos fun h' => h (hsame.eq_nil_iff.2 h')]
      exact .some hsame

theorem refreshed_same_iff {redaction : RedactionEngine} {app app' : App} {hostname : Option String}
    (h : AgreeRuns redaction (inspector app (destination hostname)) (inspector app' (destination hostname))) :
    SameDetails (refreshed app hostname) (refreshed app' hostname) ↔
      SameActiveOf hostname (inspector app (destination hostname)) (inspector app' (destination hostname)) := by
  rw [refreshed, refreshed, SameActiveOf]
  cases hd : destination hostname with
  | none =>
    rw [hd] at h
    simpa using gathered_stats_same h
  | some host =>
    rw [hd] at h
    simpa using gathered_same_iff h

theorem heartbeat_same_iff {app app' : App} {now : Rat} {a a' : Adapter} :
    SameSent (outcome (get_health app now a)) (outcome (get_health app' now a')) ↔
      SameDetails (beaten app now a).cached_worker_stats (beaten app' now a').cached_worker_stats := by
  obtain ⟨ops, hrun⟩ := get_health_apply app now a
  obtain ⟨ops', hrun'⟩ := get_health_apply app' now a'
  rw [hrun, hrun', ← sent_same_iff]
  constructor
  · rintro ⟨_, _, h, h', hrel⟩
    rw [← Except.ok.inj h, ← Except.ok.inj h'] at hrel
    exact hrel
  · exact fun hrel => ⟨_, _, rfl, rfl, hrel⟩

/-- Two runs of heartbeats send the same details exactly when each refresh is
told of the same running tasks. -/
theorem heartbeats_same_iff {redaction : RedactionEngine} (beats : Beats) {a a' : Adapter}
    (hhost : a'.worker_hostname = a.worker_hostname) (hlast : a'.last_worker_stats_at = a.last_worker_stats_at)
    (hcached : SameDetails a.cached_worker_stats a'.cached_worker_stats)
    (hagree : EachRefresh (AgreeRuns redaction) a.worker_hostname beats a.last_worker_stats_at) :
    List.Forall₂ SameSent (heartbeats (left beats) a) (heartbeats (right beats) a') ↔
      EachRefresh (SameActiveOf a.worker_hostname) a.worker_hostname beats a.last_worker_stats_at := by
  induction beats generalizing a a' with
  | nil => exact ⟨fun _ => trivial, fun _ => .nil⟩
  | cons beat beats ih =>
    obtain ⟨⟨app, app'⟩, now⟩ := beat
    show List.Forall₂ SameSent (_ :: heartbeats (left beats) _) (_ :: heartbeats (right beats) _) ↔ _
    rw [List.forall₂_cons, heartbeat_same_iff]
    obtain ⟨ops, hrun⟩ := get_health_apply app now a
    obtain ⟨ops', hrun'⟩ := get_health_apply app' now a'
    rw [hrun, hrun', final_ok, final_ok]
    simp only [EachRefresh, beaten, hlast] at hagree ⊢
    by_cases hdue : now - a.last_worker_stats_at > 60
    · simp only [if_pos hdue, hhost] at hagree ⊢
      rw [refreshed_same_iff hagree.1]
      refine and_congr_right fun hactive => ?_
      exact ih rfl rfl ((refreshed_same_iff hagree.1).2 hactive) hagree.2
    · simp only [if_neg hdue] at hagree ⊢
      rw [and_iff_right hcached]
      exact ih hhost hlast hcached hagree

/-! ## The payload depends on the running tasks -/

/-- The two runs return the same details. -/
def SameReturned (x x' : Except Exn Details) : Prop :=
  ∃ details details', x = .ok details ∧ x' = .ok details' ∧ SameDetails details details'

/-- Runs that agree on what is meant to be sent send the same exactly when they
are told of the same running tasks: in one call, and at every heartbeat. -/
theorem worker_details_same_iff (redaction : RedactionEngine) :
    (∀ app app' hostname a a',
      AgreeRuns redaction (inspector app (destination hostname)) (inspector app' (destination hostname)) →
      (SameReturned (outcome (get_worker_details app hostname a)) (outcome (get_worker_details app' hostname a')) ↔
        SameActive (inspector app (destination hostname)) (inspector app' (destination hostname)))) ∧
    (∀ (beats : Beats) (a a' : Adapter), a'.worker_hostname = a.worker_hostname →
      a'.last_worker_stats_at = a.last_worker_stats_at → SameDetails a.cached_worker_stats a'.cached_worker_stats →
      EachRefresh (AgreeRuns redaction) a.worker_hostname beats a.last_worker_stats_at →
      (List.Forall₂ SameSent (heartbeats (left beats) a) (heartbeats (right beats) a') ↔
        EachRefresh (SameActiveOf a.worker_hostname) a.worker_hostname beats a.last_worker_stats_at)) := by
  refine ⟨fun app app' hostname a a' hagree => ?_, fun beats a a' => heartbeats_same_iff beats⟩
  rw [← gathered_same_iff hagree, get_worker_details_outcome, get_worker_details_outcome]
  constructor
  · rintro ⟨_, _, h, h', hsame⟩
    rwa [Except.ok.inj h, Except.ok.inj h']
  · exact fun hsame => ⟨_, _, rfl, rfl, hsame⟩

/-- A running task with a password among its arguments: redaction hides it, and
the details show it. -/
theorem worker_details_show_arguments :
    let redaction : RedactionEngine := ⟨fun v => match v with
      | .dict kvs => .dict (kvs.map fun kv => if kv.1 = "password" then (kv.1, .str "[REDACTED]") else kv)
      | v => v⟩
    let running : String → Val := fun password =>
      .list [.dict [("id", .str "t1"), ("kwargs", .dict [("password", .str password)])]]
    let app : String → App := fun password =>
      { py := .plain
        connection_for_write := .ok ⟨1, .ok .none, .ok (.ok .none), .ok (), .ok ()⟩
        inspect := fun _ => .ok fun c =>
          if c = .active then .ok (.workers ⟨[("celery@w1", running password)], by simp⟩) else .ok .nothing
        connection_for_read := .ok ⟨.ok (.ok ⟨.ok fun _ => .ok (.int 0)⟩), .ok (.ok ⟨.ok fun _ => .ok (.int 0)⟩), .ok ()⟩
        broker_url := .ok (.str "redis://"), task_queues := .ok [], task_default_queue := .ok "celery" }
    let a : Adapter := ⟨none, 0, [], []⟩
    AgreeRuns redaction (inspector (app "hunter2") none) (inspector (app "swordfish") none) ∧
      outcome (get_worker_details (app "hunter2") none a) = .ok [("celery@w1", [("active", running "hunter2")])] ∧
      outcome (get_worker_details (app "swordfish") none a) = .ok [("celery@w1", [("active", running "swordfish")])] ∧
      ¬ SameReturned (outcome (get_worker_details (app "hunter2") none a))
        (outcome (get_worker_details (app "swordfish") none a)) := by
  intro redaction running app a
  have hunter : outcome (get_worker_details (app "hunter2") none a) =
      .ok [("celery@w1", [("active", running "hunter2")])] := rfl
  have swordfish : outcome (get_worker_details (app "swordfish") none a) =
      .ok [("celery@w1", [("active", running "swordfish")])] := rfl
  refine ⟨fun c => ?_, hunter, swordfish, ?_⟩
  · cases c with
    | active =>
      intro worker
      have hview : active_view redaction (running "hunter2") = active_view redaction (running "swordfish") := by decide
      show Option.Rel _ (if "celery@w1" = worker then some (running "hunter2") else none)
        (if "celery@w1" = worker then some (running "swordfish") else none)
      split
      · exact .some hview
      · exact .none
    | _ => exact fun worker => .none
  · rw [hunter, swordfish]
    rintro ⟨_, _, h, h', hsame⟩
    have hs := hsame.section_of "celery@w1" "active"
    rw [← Except.ok.inj h, ← Except.ok.inj h'] at hs
    have hsame : Same (running "hunter2") (running "swordfish") := by
      cases hs
      assumption
    rcases hsame with heq | ⟨_, _, hdict, -⟩
    · exact absurd heq (by decide)
    · cases hdict

end Z4jCelery.Engine.Workers
