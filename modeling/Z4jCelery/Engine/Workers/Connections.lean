import Z4jCelery.Engine.Workers.Noninterference
/-!
# Reply waits

The inspect calls wait for their replies on a connection of the agent's own.
Whichever call fails, what a run does with connections is one `Session`: the
connection is opened, handed to `inspect` and released last, and the details are
what the replies before the failure hold.
-/

namespace Z4jCelery.Engine.Workers

open Py Z4jCelery.Core Lib

/-! ## Sessions -/

/-- `transport_options` is a plain attribute, as kombu's is: reading it gives a
value or that there is none, and it can be assigned. -/
structure PlainOptions (conn : Connection) : Prop where
  read : ∃ v, getattr conn.transport_options = .ok v
  assign : conn.set_transport_options = .ok ()

/-- A timeout is added to the options of a redis connection that has none. -/
def options_change (conn : Connection) : List Op :=
  match getattr conn.transport_options with
  | .ok (.dict options) =>
    if lookup "socket_timeout" options = none ∧ is_redis conn then
      [.set_transport_options conn.id (options ++ [("socket_timeout", AGENT_SOCKET_TIMEOUT)])]
    else []
  | _ => []

/-- The calls made: up to the first that fails. -/
def called (ins : Inspector) : List Inspect → List Inspect
  | [] => []
  | c :: cs =>
    match reply ins c with
    | .ok _ => c :: called ins cs
    | .error _ => [c]

/-- The replies read before the first failure. -/
def replies (ins : Inspector) : List Inspect → List (Inspect × List (String × Val))
  | [] => []
  | c :: cs =>
    match reply ins c with
    | .ok items => (c, items) :: replies ins cs
    | .error _ => []

/-- The details hold the sections of the replies, and nothing else. -/
structure SectionsOf (rs : List (Inspect × List (String × Val))) (details : Details) : Prop where
  workers : ∀ worker, (lookup worker details).isSome ↔ ∃ r ∈ rs, (lookup worker r.2).isSome
  sections : ∀ worker name v, section_of details worker name = some v ↔
    ∃ r ∈ rs, r.1.section_name = name ∧ ∃ data, lookup worker r.2 = some data ∧ shown r.1 data = v

/-- What a run did with connections, and its details. -/
inductive Session (app : App) (destination : Option String) (cs : List Inspect) : List Op → Details → Prop
  | unopened {e : Exn} (h : app.connection_for_write = .error e) : Session app destination cs [] []
  | uninspected {conn : Connection} {e : Exn} (h : app.connection_for_write = .ok conn)
      (hi : app.inspect destination = .error e) :
      Session app destination cs
        ([.opened conn.id] ++ options_change conn ++ [.inspect conn.id destination] ++ [.released conn.id]) []
  | inspected {conn : Connection} {ins : Inspector} {details : Details} (h : app.connection_for_write = .ok conn)
      (hi : app.inspect destination = .ok ins) (hd : SectionsOf (replies ins cs) details) :
      Session app destination cs
        ([.opened conn.id] ++ options_change conn ++ [.inspect conn.id destination] ++
          (called ins cs).map (.call conn.id) ++ [.released conn.id]) details

/-! ## The details -/

theorem gather_workers (ins : Inspector) (cs : List Inspect) (r : Details) (worker : String) :
    (lookup worker (gather ins cs r)).isSome ↔
      (lookup worker r).isSome ∨ ∃ rep ∈ replies ins cs, (lookup worker rep.2).isSome := by
  induction cs generalizing r with
  | nil => simp [gather, replies]
  | cons c cs ih =>
    rw [gather, replies]
    cases hr : reply ins c with
    | error e => simp
    | ok items =>
      simp only [ih, lookup_merge c (reply_nodup hr), List.exists_mem_cons_iff]
      cases lookup worker items <;> simp

theorem mem_replies {ins : Inspector} {cs : List Inspect} {rep : Inspect × List (String × Val)}
    (h : rep ∈ replies ins cs) : rep.1 ∈ cs := by
  induction cs with
  | nil => simp [replies] at h
  | cons c cs ih =>
    rw [replies] at h
    cases hr : reply ins c with
    | error e => simp [hr] at h
    | ok items =>
      simp only [hr, List.mem_cons] at h
      rcases h with rfl | h
      · exact List.mem_cons_self
      · exact List.mem_cons_of_mem c (ih h)

/-- A section comes from its own call's reply. -/
theorem gather_sections (ins : Inspector) {cs : List Inspect} (hcs : (cs.map Inspect.section_name).Nodup) (r : Details)
    (worker name : String) (v : Val) (hnew : name ∈ cs.map Inspect.section_name → section_of r worker name = none) :
    section_of (gather ins cs r) worker name = some v ↔ section_of r worker name = some v ∨
      ∃ rep ∈ replies ins cs, rep.1.section_name = name ∧ ∃ data, lookup worker rep.2 = some data ∧ shown rep.1 data = v := by
  induction cs generalizing r with
  | nil => simp [gather, replies]
  | cons c cs ih =>
    rw [List.map_cons, List.nodup_cons] at hcs
    rw [gather, replies]
    cases hr : reply ins c with
    | error e => simp
    | ok items =>
      have hmerge := section_of_merge c (reply_nodup hr) r worker name
      simp only [List.exists_mem_cons_iff]
      by_cases hname : c.section_name = name
      · -- no later call has this name
        subst hname
        have hlater : ¬ ∃ rep ∈ replies ins cs, rep.1.section_name = c.section_name ∧
            ∃ data, lookup worker rep.2 = some data ∧ shown rep.1 data = v := by
          rintro ⟨rep, hrep, hsame, -⟩
          exact hcs.1 (hsame ▸ List.mem_map_of_mem (mem_replies hrep))
        have hfresh := hnew List.mem_cons_self
        rw [if_pos rfl, hfresh, Option.or_none] at hmerge
        rw [ih hcs.2 _ fun hmem => absurd hmem hcs.1, hmerge, hfresh]
        simp only [hlater, or_false, Option.map_eq_some_iff, reduceCtorEq, false_or, true_and]
      · rw [if_neg hname] at hmerge
        rw [ih hcs.2 _ fun hmem => hmerge.trans (hnew (List.mem_cons_of_mem _ hmem)), hmerge]
        simp only [hname, false_and, false_or]

theorem gather_sectionsOf (ins : Inspector) {cs : List Inspect} (hcs : (cs.map Inspect.section_name).Nodup) :
    SectionsOf (replies ins cs) (gather ins cs []) where
  workers worker := by simpa using gather_workers ins cs [] worker
  sections worker name v := by
    simpa [section_of] using gather_sections ins hcs [] worker name v fun _ => rfl

/-! ## The log of a run -/

/-- The state after some connection events. -/
def logged (ops : List Op) (s : Adapter × Details) : Adapter × Details := ({ s.1 with ops := s.1.ops ++ ops }, s.2)

theorem logged_logged (ops ops' : List Op) (s : Adapter × Details) :
    logged ops' (logged ops s) = logged (ops ++ ops') s := by
  rw [logged, logged, logged, List.append_assoc]

theorem logged_nil (s : Adapter × Details) : logged [] s = s := by
  rw [logged, List.append_nil]

theorem agent_options_plain {conn : Connection} (hplain : PlainOptions conn) :
    ∃ options, agent_options conn = .ok options ∧
      options_change conn = (options.map (.set_transport_options conn.id)).toList := by
  obtain ⟨v, hv⟩ := hplain.read
  rw [agent_options, options_change, hv]
  cases v with
  | dict kvs =>
    by_cases hset : lookup "socket_timeout" kvs = none ∧ is_redis conn
    · refine ⟨some (Dict.upsertItems "socket_timeout" AGENT_SOCKET_TIMEOUT kvs), ?_, ?_⟩
      · simp only [bind, Except.bind, if_pos hset]
        rfl
      · rw [Dict.upsertItems_of_notMem (lookup_eq_none.1 hset.1)]
        simp only [if_pos hset]
        rfl
    · refine ⟨none, ?_, ?_⟩
      · simp only [bind, Except.bind, if_neg hset]
        rfl
      · simp only [if_neg hset]
        rfl
  | _ => exact ⟨none, rfl, rfl⟩

theorem open_connection_log {app : App} {conn : Connection} (hc : app.connection_for_write = .ok conn)
    (hplain : PlainOptions conn) (s : Adapter × Details) :
    open_connection app s = .ok conn (logged ([.opened conn.id] ++ options_change conn) s) := by
  obtain ⟨options, hoptions, hchange⟩ := agent_options_plain hplain
  have hrec : record (.opened conn.id) s = .ok () (logged [.opened conn.id] s) := record_apply _ s
  rw [open_connection, hc, ofOutcome_ok, bind_ok (pure_apply conn s), bind_ok hrec, hoptions, ofOutcome_ok,
    bind_ok (pure_apply options _), hchange]
  cases options with
  | none =>
    rw [Option.map_none, Option.toList_none, List.append_nil]
    rfl
  | some options =>
    have hset : record (.set_transport_options conn.id options) (logged [.opened conn.id] s) =
        .ok () (logged [.set_transport_options conn.id options] (logged [.opened conn.id] s)) := record_apply _ _
    simp only
    rw [bind_ok hset, hplain.assign, ofOutcome_ok, bind_ok (pure_apply () _), pure_apply, logged_logged]
    rfl

theorem release_log (conn : Connection) (s : Adapter × Details) :
    release conn s = .ok () (logged [.released conn.id] s) := release_apply conn s

/-- Whatever the body does, the connection is released after it. -/
theorem agent_broker_connection_log {α : Type} {app : App} {conn : Connection}
    (hc : app.connection_for_write = .ok conn) (hplain : PlainOptions conn) (body : Connection → LocalM α)
    (s : Adapter × Details) :
    final (agent_broker_connection app body s) =
      logged [.released conn.id] (final (body conn (logged ([.opened conn.id] ++ options_change conn) s))) := by
  rw [agent_broker_connection, bind_ok (open_connection_log hc hplain s), withExit]
  cases body conn (logged ([.opened conn.id] ++ options_change conn) s) <;> simp only [release_log] <;> rfl

theorem call_log (conn : Connection) (ins : Inspector) (c : Inspect) (s : Adapter × Details) :
    final (call conn ins c s) = logged [.call conn.id c] s := by
  have hrec : record (.call conn.id c) s = .ok () (logged [.call conn.id c] s) := record_apply _ s
  rw [call, bind_ok hrec]
  cases ins c with
  | error e => rfl
  | ok r =>
    rw [ofOutcome_ok, bind_ok (pure_apply r _), ofOutcome_apply]
    cases r.items <;> rfl

theorem collectAll_log (conn : Connection) (ins : Inspector) (cs : List Inspect) (s : Adapter × Details) :
    (final (collectAll conn ins cs s)).1 = (logged ((called ins cs).map (.call conn.id)) s).1 := by
  induction cs generalizing s with
  | nil =>
    rw [called, List.map_nil, logged_nil]
    rfl
  | cons c cs ih =>
    have hout := (call_apply conn ins c s).1
    have hfin := call_log conn ins c s
    rw [collectAll, collect, called]
    cases hc : call conn ins c s with
    | error e t =>
      rw [hc] at hout hfin
      rw [← hout, bind_error (bind_error hc), final_error, show t = _ from hfin]
      rfl
    | ok items t =>
      rw [hc] at hout hfin
      rw [← hout, bind_ok ((bind_ok hc).trans (modify_apply _ t)), ih, show t = _ from hfin]
      simp only [outcome_ok, logged, List.map_cons, List.append_assoc, List.singleton_append]

theorem inspect_log (app : App) (destination : Option String) (conn : Connection) (s : Adapter × Details) :
    inspect app destination conn s = match app.inspect destination with
      | .ok ins => .ok ins (logged [.inspect conn.id destination] s)
      | .error e => .error e (logged [.inspect conn.id destination] s) := by
  have hrec : record (.inspect conn.id destination) s = .ok () (logged [.inspect conn.id destination] s) :=
    record_apply _ s
  rw [inspect, bind_ok hrec, ofOutcome_apply]
  cases app.inspect destination <;> rfl

theorem returning_state (body : LocalM Unit) (a : Adapter) :
    final (returning (tryExcept body fun _ => pure ()) a) = (final (body (a, []))).1 := by
  rw [returning, tryExcept]
  cases body (a, []) <;> rfl

/-! ## Runs are sessions -/

/-- A run of inspect calls, given what its body does once there is an inspector. -/
theorem session_of_run {α : Type} {app : App} (hplain : ∀ conn, app.connection_for_write = .ok conn → PlainOptions conn)
    (destination : Option String) {cs : List Inspect} (hcs : (cs.map Inspect.section_name).Nodup)
    {body : Connection → Inspector → LocalM α}
    (hbody : ∀ conn ins s, (final (body conn ins s)).1 = (logged ((called ins cs).map (.call conn.id)) s).1)
    (a : Adapter) :
    ∃ log, (final (agent_broker_connection app (fun conn => inspect app destination conn >>= body conn) (a, []))).1 =
        { a with ops := a.ops ++ log } ∧
      Session app destination cs log (gathered (inspector app destination) cs) := by
  cases hc : app.connection_for_write with
  | error e =>
    refine ⟨[], ?_, ?_⟩
    · rw [agent_broker_connection, open_connection, hc, List.append_nil]
      rfl
    · rw [inspector, opened, hc]
      exact .unopened hc
  | ok conn =>
    have hlog := agent_broker_connection_log hc (hplain conn hc) (fun conn => inspect app destination conn >>= body conn)
      (a, [])
    have hopened : opened app = .ok conn := by
      rw [← (open_connection_apply app (a, [])).1, open_connection_log hc (hplain conn hc), outcome_ok]
    rw [hlog, inspector, hopened]
    cases hi : app.inspect destination with
    | error e =>
      refine ⟨_, ?_, .uninspected hc hi⟩
      simp only [bind_apply, inspect_log, hi, final_error, logged, List.append_assoc]
    | ok ins =>
      refine ⟨_, ?_, .inspected hc hi ?_⟩
      · simp only [bind_apply, inspect_log, hi, logged, hbody, List.append_assoc]
      · simp only [Except.bind, gathered]
        exact gather_sectionsOf ins hcs

/-- The inspect calls of a run wait on a connection of its own, released once
after the last of them: a run never raises, and its details are the replies
before the first failure. -/
theorem reply_waits_disciplined (app : App)
    (hplain : ∀ conn, app.connection_for_write = .ok conn → PlainOptions conn) (a : Adapter) :
    (∀ hostname, ∃ log details, get_worker_details app hostname a = .ok details { a with ops := a.ops ++ log } ∧
      Session app (destination hostname) calls log details) ∧
    ∃ log details, worker_stats_basic app a = .ok details { a with ops := a.ops ++ log } ∧
      Session app none [.stats] log details := by
  constructor
  · intro hostname
    have hcs : (calls.map Inspect.section_name).Nodup := by decide
    obtain ⟨log, hlog, hsession⟩ := session_of_run hplain (destination hostname) hcs
      (fun conn ins => collectAll_log conn ins calls) a
    refine ⟨log, _, ?_, hsession⟩
    refine result_eq (get_worker_details_outcome app hostname a) ?_
    rw [get_worker_details_eq, returning_state, hlog]
  · have hcs : ([Inspect.stats].map Inspect.section_name).Nodup := by decide
    have hbody : ∀ conn ins s, (final (call conn ins .stats s)).1 =
        (logged ((called ins [.stats]).map (.call conn.id)) s).1 := by
      intro conn ins s
      rw [call_log, called]
      cases reply ins .stats <;> rfl
    obtain ⟨log, hlog, hsession⟩ := session_of_run hplain none hcs hbody a
    refine ⟨log, _, ?_, hsession⟩
    refine result_eq (worker_stats_basic_outcome app a) ?_
    rw [worker_stats_basic, returning_state, ← hlog, bind_apply]
    cases agent_broker_connection app (fun conn => inspect app none conn >>= fun ins => call conn ins .stats) (a, [])
      <;> rfl

/-- The running tasks cannot be read, and neither can the connection be closed:
the statistics are still returned. -/
theorem reply_waits_disciplined_on_redis :
    let lost : Exn := ⟨.OSError, "ConnectionError", "connection lost"⟩
    let conn : Connection := ⟨7, .ok (.dict [("visibility_timeout", .int 3600)]), .ok (.ok (.str "redis")), .ok (), .error lost⟩
    let app : App :=
      { py := .plain
        connection_for_write := .ok conn
        inspect := fun _ => .ok fun c =>
          if c = .stats then .ok (.workers ⟨[("celery@a", .str "up")], by simp⟩) else .error lost
        connection_for_read := .error lost
        broker_url := .error lost, task_queues := .ok [], task_default_queue := .ok "celery" }
    let a : Adapter := ⟨some "celery@a", 0, [], []⟩
    (∃ log details, get_worker_details app (some "celery@a") a = .ok details { a with ops := a.ops ++ log } ∧
      Session app (some "celery@a") calls log details) ∧
    get_worker_details app (some "celery@a") a = .ok [("celery@a", [("stats", .str "up")])] { a with ops :=
      [.opened 7,
        .set_transport_options 7 [("visibility_timeout", .int 3600), ("socket_timeout", AGENT_SOCKET_TIMEOUT)],
        .inspect 7 (some "celery@a"), .call 7 .stats, .call 7 .active, .released 7] } := by
  intro lost conn app a
  have hplain : ∀ conn, app.connection_for_write = .ok conn → PlainOptions conn := by
    intro conn' hc
    cases hc
    exact ⟨⟨_, rfl⟩, rfl⟩
  exact ⟨(reply_waits_disciplined app hplain a).1 (some "celery@a"), rfl⟩

end Z4jCelery.Engine.Workers
